import VisualBlocks.Proofs.Script.Reading
import VisualBlocks.Proofs.Script.StatementGrammar

/-!
# The parser reads what is written

**Whatever writes a program is parsed as that program** (`parseTokens_of_writes`).

* `Simple.reads`, `Declares.reads`: statements without parts.
* `ReadsStatement`, `ReadsBody`: what it is for the parser to read one statement, and the statements
  up to the brace that closes them.  There is one lemma for each kind of statement, and the
  induction on what is written puts them together (`Writes.reads`).

A statement must not be followed by the word `else`, since that would belong to it; nothing that
can be written begins with it (`Writes.head`).
-/

set_option autoImplicit false

namespace VisualBlocks
namespace Script

/-! ## The first token -/

theorem isKeyword_cons {word : String} {t : Token} (ts : List Token) :
    isKeyword word (t :: ts) = true ↔ t.lexeme = .keyword word := by
  obtain ⟨kind, text, pos⟩ := t
  rw [isKeyword, Bool.and_eq_true, decide_eq_true_eq, decide_eq_true_eq]
  exact (Lexeme.mk.injEq kind text .keyword word ▸ Iff.rfl)

theorem isOperator_cons {symbol : String} {t : Token} (ts : List Token) :
    isOperator symbol (t :: ts) = true ↔ t.lexeme = .operator symbol := by
  obtain ⟨kind, text, pos⟩ := t
  rw [isOperator, Bool.and_eq_true, decide_eq_true_eq, decide_eq_true_eq]
  exact (Lexeme.mk.injEq kind text .operator symbol ▸ Iff.rfl)

theorem nextKind_cons (t : Token) (ts : List Token) : nextKind (t :: ts) = t.kind := rfl

theorem nextPos_cons (t : Token) (ts : List Token) : nextPos (t :: ts) = t.pos := rfl

/-- The words that begin statements or their parts. -/
def statementWords : List String := ["var", "let", "const", "if", "else", "while", "for"]

theorem not_isKeyword_of_startsExpr {word : String} (hword : word ∈ statementWords) {t : Token}
    (ht : t.lexeme.startsExpr = true) (ts : List Token) : isKeyword word (t :: ts) = false := by
  have hwords : ∀ word ∈ statementWords, (Lexeme.keyword word).startsExpr = false := by decide
  rw [Bool.eq_false_iff, Ne, isKeyword_cons]
  intro h
  rw [h, hwords word hword] at ht
  exact Bool.false_ne_true ht

theorem not_isKeyword_of_kind {word : String} {t : Token} (ht : t.kind ≠ .keyword)
    (ts : List Token) : isKeyword word (t :: ts) = false := by
  rw [Bool.eq_false_iff, Ne, isKeyword_cons]
  exact fun h => ht (kind_of_lexeme h)

/-- The kinds of token that end expressions or separate their parts. -/
def closingKinds : List TokenKind :=
  [.semicolon, .comma, .colon, .question, .rightParen, .rightBrace, .leftBrace, .endOfInput]

theorem kind_ne_of_startsExpr {t : Token} (ht : t.lexeme.startsExpr = true) {kind : TokenKind}
    (hkind : kind ∈ closingKinds) : t.kind ≠ kind := by
  intro h
  have hclosing : ∀ kind ∈ closingKinds, ∀ text, Lexeme.startsExpr ⟨kind, text⟩ = false := by
    intro kind hmem text
    cases kind <;> first | rfl | exact absurd hmem (by decide)
  rw [Token.lexeme, h, hclosing kind hkind] at ht
  exact Bool.false_ne_true ht

/-! ## Statements without parts -/

theorem mem_separated {l : Lexeme} {ws : List (List Lexeme)} (h : l ∈ separated ws) :
    l = .comma ∨ ∃ w ∈ ws, l ∈ w := by
  induction ws with
  | nil => cases h
  | cons w ws ih =>
    cases ws with
    | nil => exact .inr ⟨w, List.mem_cons_self, h⟩
    | cons v ws =>
      rw [separated, List.mem_append, List.mem_cons] at h
      rcases h with h | h | h
      · exact .inr ⟨w, List.mem_cons_self, h⟩
      · exact .inl h
      · rcases ih h with h | ⟨u, hu, h⟩
        · exact .inl h
        · exact .inr ⟨u, List.mem_cons_of_mem _ hu, h⟩

/-- No expression holds an operator that would make an assignment of it. -/
theorem Spells.not_assign {p : Nat} {w : List Lexeme} {e : Expr} (h : Spells p w e) {l : Lexeme}
    (hl : l ∈ w) (hkind : l.kind = .operator) : l.text ∉ assignSymbols := by
  induction h with
  | number h => obtain rfl := List.mem_singleton.1 hl; cases hkind
  | string text => obtain rfl := List.mem_singleton.1 hl; cases hkind
  | keyword h => obtain rfl := List.mem_singleton.1 hl; cases hkind
  | var name => obtain rfl := List.mem_singleton.1 hl; cases hkind
  | @call p callee parts h ih =>
    simp only [List.mem_cons, List.mem_append, List.not_mem_nil, or_false] at hl
    rcases hl with rfl | rfl | hl | rfl
    · cases hkind
    · cases hkind
    · rcases mem_separated hl with rfl | ⟨w, hw, hl⟩
      · cases hkind
      · obtain ⟨part, hpart, rfl⟩ := List.mem_map.1 hw
        exact ih part hpart hl
    · cases hkind
  | group h ih =>
    simp only [List.mem_cons, List.mem_append, List.not_mem_nil, or_false] at hl
    rcases hl with rfl | hl | rfl
    · cases hkind
    · exact ih hl
    · cases hkind
  | unary op hp h ih =>
    rcases List.mem_cons.1 hl with rfl | hl
    · cases op <;> decide
    · exact ih hl
  | binary op hp ha hb iha ihb =>
    simp only [List.mem_cons, List.mem_append] at hl
    rcases hl with hl | rfl | hl
    · exact iha hl
    · cases op <;> decide
    · exact ihb hl
  | conditional ht hy hn iht ihy ihn =>
    simp only [List.mem_cons, List.mem_append] at hl
    rcases hl with hl | rfl | hl | rfl | hl
    · exact iht hl
    · cases hkind
    · exact ihy hl
    · cases hkind
    · exact ihn hl

theorem assignOp?_of_not_mem {t : Token} (h : t.kind = .operator → t.text ∉ assignSymbols) :
    assignOp? t = none := by
  rw [assignOp?]
  split_ifs with hkind h₁ h₂ h₃ h₄ h₅
  · exact absurd (h₁ ▸ by decide) (h hkind)
  · exact absurd (h₂ ▸ by decide) (h hkind)
  · exact absurd (h₃ ▸ by decide) (h hkind)
  · exact absurd (h₄ ▸ by decide) (h hkind)
  · exact absurd (h₅ ▸ by decide) (h hkind)
  · rfl
  · rfl

theorem simpleStatement_bare {fuel : Nat} {ts : List Token}
    (h : ∀ t o rest, ts = t :: o :: rest → assignOp? o = none) :
    simpleStatement fuel ts =
      (expression fuel ts >>= fun r => .ok (.expr (nextPos ts) r.1, r.2)) := by
  rw [simpleStatement.eq_def]
  rcases ts with _ | ⟨t, _ | ⟨o, rest⟩⟩
  · rfl
  · rfl
  · dsimp only
    rw [h t o rest rfl]
    split_ifs <;> rfl

/-- The parser reads `w` as the statement `s`, up to its semicolon. -/
def ReadsSimple (w : List Lexeme) (s : Statement) : Prop :=
  ∀ ts rest fuel, lexemes ts = w → Ends rest → 4 * w.length ≤ fuel →
    ∃ s', s'.strip = s ∧ simpleStatement fuel (ts ++ rest) = .ok (s', rest)

theorem readsSimple_expr {w : List Lexeme} {e : Expr} (h : Spells 0 w e) :
    ReadsSimple w (.expr .start e) := by
  intro ts rest fuel hts hrest hfuel
  obtain ⟨e', rfl, hread⟩ := h.reads.1 ts rest fuel hts hrest hfuel
  refine ⟨.expr (nextPos (ts ++ rest)) e', rfl, ?_⟩
  have hbare : ∀ t o us, ts ++ rest = t :: o :: us → assignOp? o = none := by
    intro t o us hsplit
    refine assignOp?_of_not_mem fun hkind => ?_
    obtain ⟨l, v, rfl, -⟩ := h.starts
    obtain ⟨t', ts, rfl, -, -⟩ := lexemes_eq_cons hts
    cases ts with
    | nil =>
      cases rest with
      | nil => cases hsplit
      | cons r rest =>
        cases hsplit
        exact absurd hkind hrest.noOperator
    | cons o' ts =>
      obtain ⟨-, hsplit⟩ := List.cons.inj hsplit
      obtain ⟨rfl, -⟩ := List.cons.inj hsplit
      have hmem : o'.lexeme ∈ l :: v := by
        rw [← hts]
        exact List.mem_cons_of_mem _ List.mem_cons_self
      exact h.not_assign hmem hkind
  rw [simpleStatement_bare hbare, hread]
  rfl

theorem assignOp?_operator (op : AssignOp) {t : Token} (h : t.lexeme = .operator op.symbol) :
    assignOp? t = some (op, false) := by
  obtain ⟨kind, text, pos⟩ := t
  obtain ⟨rfl, rfl⟩ := Lexeme.mk.inj h
  cases op <;> rfl

theorem assignOp?_step {op : AssignOp} {symbol : String} (hop : op.stepSymbol? = some symbol)
    {t : Token} (h : t.lexeme = .operator symbol) : assignOp? t = some (op, true) := by
  obtain ⟨kind, text, pos⟩ := t
  obtain ⟨rfl, rfl⟩ := Lexeme.mk.inj h
  cases op <;> cases hop <;> rfl

theorem Simple.reads {w : List Lexeme} {s : Statement} (h : Simple w s) : ReadsSimple w s := by
  cases h with
  | expr h => exact readsSimple_expr h
  | @assign name op w e h =>
    intro ts rest fuel hts hrest hfuel
    rw [List.length_cons, List.length_cons] at hfuel
    obtain ⟨t, us, rfl, ht, hus⟩ := lexemes_eq_cons hts
    obtain ⟨o, us, rfl, ho, hus⟩ := lexemes_eq_cons hus
    obtain ⟨e', rfl, hread⟩ := h.reads.1 us rest fuel hus hrest (by omega)
    have hname : t.text = name := text_of_lexeme ht
    refine ⟨.assign t.pos t.text op e', by rw [Statement.strip, hname], ?_⟩
    rw [List.cons_append, List.cons_append, simpleStatement]
    dsimp only
    have hkind : t.kind = .name := kind_of_lexeme ht
    rw [if_pos hkind, assignOp?_operator op ho]
    dsimp only
    rw [hread]
    rfl
  | @step name op symbol h =>
    intro ts rest fuel hts hrest hfuel
    obtain ⟨t, us, rfl, ht, hus⟩ := lexemes_eq_cons hts
    obtain ⟨o, rfl, ho⟩ := lexemes_eq_singleton hus
    have hname : t.text = name := text_of_lexeme ht
    refine ⟨.assign t.pos t.text op (.number o.pos 1), by rw [Statement.strip, hname]; rfl, ?_⟩
    rw [List.cons_append, List.singleton_append, simpleStatement]
    dsimp only
    have hkind : t.kind = .name := kind_of_lexeme ht
    rw [if_pos hkind, assignOp?_step h ho]

theorem Simple.head {w : List Lexeme} {s : Statement} (h : Simple w s) :
    ∃ l v, w = l :: v ∧ l.startsExpr = true := by
  cases h with
  | assign name op h => exact ⟨_, _, rfl, rfl⟩
  | step name h => exact ⟨_, _, rfl, rfl⟩
  | expr h => exact h.starts

/-! ## Declarations -/

/-- The declared variable with its positions at the start. -/
def stripDeclarator (d : String × Option Expr) : String × Option Expr := (d.1, d.2.map Expr.strip)

theorem isOperator_of_kind {symbol : String} {ts : List Token} (h : nextKind ts ≠ .operator) :
    isOperator symbol ts = false := by
  cases ts with
  | nil => rfl
  | cons t ts =>
    have hkind : ¬ t.kind = .operator := h
    rw [isOperator, decide_eq_false hkind]
    rfl

/-- The parser reads one variable of a declaration and looks for further ones. -/
theorem Declarator.reads {w : List Lexeme} {d : String × Option Expr} (h : Declarator w d)
    {ts rest : List Token} (fuel : Nat) (hts : lexemes ts = w) (hrest : Ends rest)
    (hfuel : 4 * w.length ≤ fuel + 1) :
    ∃ d', stripDeclarator d' = d ∧ declarators (fuel + 1) (ts ++ rest) =
      if nextKind rest = .comma then
        declarators fuel rest.tail >>= fun r => .ok (d' :: r.1, r.2)
      else .ok ([d'], rest) := by
  cases h with
  | bare name =>
    obtain ⟨t, rfl, ht⟩ := lexemes_eq_singleton hts
    have hname : t.text = name := text_of_lexeme ht
    have hexpect : expect .name .variableName (t :: rest) = .ok rest := if_pos (kind_of_lexeme ht)
    refine ⟨(t.text, none), by rw [stripDeclarator, hname]; rfl, ?_⟩
    rw [List.singleton_append, declarators, hexpect]
    dsimp only [bind, Except.bind]
    rw [isOperator_of_kind hrest.noOperator]
    rfl
  | @init name w e h =>
    rw [List.length_cons, List.length_cons] at hfuel
    obtain ⟨t, us, rfl, ht, hus⟩ := lexemes_eq_cons hts
    obtain ⟨o, us, rfl, ho, hus⟩ := lexemes_eq_cons hus
    obtain ⟨e', rfl, hread⟩ := h.reads.1 us rest fuel hus hrest (by omega)
    have hname : t.text = name := text_of_lexeme ht
    have hexpect : expect .name .variableName (t :: o :: (us ++ rest)) = .ok (o :: (us ++ rest)) :=
      if_pos (kind_of_lexeme ht)
    have hequals : isOperator "=" (o :: (us ++ rest)) = true := (isOperator_cons _).2 ho
    refine ⟨(t.text, some e'), by rw [stripDeclarator, hname]; rfl, ?_⟩
    rw [List.cons_append, List.cons_append, declarators, hexpect]
    dsimp only [bind, Except.bind]
    rw [hequals, if_pos rfl, List.tail_cons, hread]
    rfl

theorem Declares.reads {w : List Lexeme} {ds : List (String × Option Expr)} (h : Declares w ds)
    {ts rest : List Token} (fuel : Nat) (hts : lexemes ts = w) (hrest : Ends rest)
    (hcomma : nextKind rest ≠ .comma) (hfuel : 4 * w.length ≤ fuel) (hpos : 0 < fuel) :
    ∃ ds', ds'.map stripDeclarator = ds ∧ declarators fuel (ts ++ rest) = .ok (ds', rest) := by
  obtain ⟨fuel, rfl⟩ : ∃ k, fuel = k + 1 := ⟨fuel - 1, by omega⟩
  induction h generalizing ts fuel with
  | last h =>
    obtain ⟨d', rfl, hread⟩ := h.reads fuel hts hrest hfuel
    exact ⟨[d'], rfl, by rw [hread, if_neg hcomma]⟩
  | @more v w d ds hd hds ih =>
    rw [List.length_append, List.length_cons] at hfuel
    obtain ⟨us, vs, rfl, hus, hvs⟩ := lexemes_eq_append hts
    obtain ⟨comma, vs, rfl, hc, hvs⟩ := lexemes_eq_cons hvs
    have hkind : nextKind (comma :: (vs ++ rest)) = .comma := kind_of_lexeme hc
    have hends : Ends (comma :: (vs ++ rest)) :=
      ends_of_kind hkind (by decide) (by decide) (by decide)
    obtain ⟨fuel, rfl⟩ : ∃ k, fuel = k + 1 := ⟨fuel - 1, by omega⟩
    obtain ⟨d', rfl, hread⟩ := hd.reads (fuel + 1) hus hends (by omega)
    obtain ⟨ds', rfl, hmore⟩ := ih hvs fuel (by omega) (Nat.succ_pos fuel)
    refine ⟨d' :: ds', rfl, ?_⟩
    rw [List.append_assoc, List.cons_append, hread, if_pos hkind, List.tail_cons, hmore]
    rfl

/-! ## Conditions and bodies -/

theorem condition_reads {w : List Lexeme} {e : Expr} (h : Spells 0 w e) (word : String)
    {opening close : Token} {ts : List Token} (rest : List Token) (fuel : Nat) (hopen : opening.kind = .leftParen)
    (hts : lexemes ts = w) (hclose : close.kind = .rightParen) (hfuel : 4 * w.length ≤ fuel) :
    ∃ e', e'.strip = e ∧
      condition fuel word (opening :: (ts ++ close :: rest)) = .ok (e', rest) := by
  have hends : Ends (close :: rest) := ends_of_kind hclose (by decide) (by decide) (by decide)
  obtain ⟨e', he', hread⟩ := h.reads.1 ts (close :: rest) fuel hts hends hfuel
  have hexpect : expect .leftParen (.headOpening word) (opening :: (ts ++ close :: rest)) =
      .ok (ts ++ close :: rest) := if_pos hopen
  have hexpect' : expect .rightParen (.conditionEnd word) (close :: rest) = .ok rest :=
    if_pos hclose
  refine ⟨e', he', ?_⟩
  rw [condition, hexpect]
  dsimp only [bind, Except.bind]
  rw [hread]
  dsimp only
  rw [hexpect']
  rfl

/-- The parser reads `w` and the brace after it as the statements `ss`. -/
def ReadsBody (w : List Lexeme) (ss : List Statement) : Prop :=
  ∀ ts close rest fuel, lexemes ts = w → close.kind = .rightBrace → 4 * w.length + 1 ≤ fuel →
    ∃ ss', stripStatements ss' = ss ∧ blockBody fuel (ts ++ close :: rest) = .ok (ss', rest)

theorem ReadsBody.block {w : List Lexeme} {ss : List Statement} (h : ReadsBody w ss)
    {opening close : Token} {ts : List Token} (rest : List Token) (fuel : Nat)
    (hopen : opening.kind = .leftBrace) (hts : lexemes ts = w) (hclose : close.kind = .rightBrace) (hfuel : 4 * w.length + 2 ≤ fuel) :
    ∃ ss', stripStatements ss' = ss ∧
      block fuel (opening :: (ts ++ close :: rest)) = .ok (ss', rest) := by
  obtain ⟨fuel, rfl⟩ : ∃ k, fuel = k + 1 := ⟨fuel - 1, by omega⟩
  obtain ⟨ss', hss, hread⟩ := h ts close rest fuel hts hclose (by omega)
  refine ⟨ss', hss, ?_⟩
  rw [Script.block, nextKind, if_pos hopen, List.tail_cons, hread]

/-- The tokens of a branch, with what each of them is. -/
theorem Branch.tokens {b : Branch} {ts : List Token} (h : lexemes ts = b.text) :
    ∃ word opening us close left vs right,
      ts = word :: opening :: (us ++ close :: left :: (vs ++ [right])) ∧
      word.lexeme = .keyword "if" ∧ opening.kind = .leftParen ∧ lexemes us = b.conditionText ∧
      close.kind = .rightParen ∧ left.kind = .leftBrace ∧ lexemes vs = b.bodyText ∧
      right.kind = .rightBrace := by
  obtain ⟨word, ts, rfl, hword, hts⟩ := lexemes_eq_cons h
  obtain ⟨opening, ts, rfl, hopen, hts⟩ := lexemes_eq_cons hts
  obtain ⟨us, ts, rfl, hus, hts⟩ := lexemes_eq_append hts
  obtain ⟨close, ts, rfl, hclose, hts⟩ := lexemes_eq_cons hts
  obtain ⟨left, ts, rfl, hleft, hts⟩ := lexemes_eq_cons hts
  obtain ⟨vs, ts, rfl, hvs, hts⟩ := lexemes_eq_append hts
  obtain ⟨right, rfl, hright⟩ := lexemes_eq_singleton hts
  exact ⟨word, opening, us, close, left, vs, right, rfl, hword, kind_of_lexeme hopen, hus,
    kind_of_lexeme hclose, kind_of_lexeme hleft, hvs, kind_of_lexeme hright⟩

theorem Branch.length_text (b : Branch) :
    b.text.length = b.conditionText.length + b.bodyText.length + 5 := by
  simp only [Branch.text, List.length_cons, List.length_append, List.length_nil]
  omega

/-- The parser reads the further branches and the statements for all other cases. -/
theorem furtherBranches_reads {more : List Branch} {otherwise : Option (List Lexeme × List Statement)}
    (hconditions : ∀ b ∈ more, Spells 0 b.conditionText b.condition)
    (hbodies : ∀ b ∈ more, ReadsBody b.bodyText b.body)
    (hotherwise : ∀ o ∈ otherwise, ReadsBody o.1 o.2) {ts rest : List Token} (fuel : Nat)
    (hts : lexemes ts = elseIfs more ++ elseText otherwise)
    (hrest : isKeyword "else" rest = false)
    (hfuel : 4 * (elseIfs more ++ elseText otherwise).length + 1 ≤ fuel) :
    ∃ branches other, stripBranches branches = more.map Branch.parts ∧
      stripStatements other = elseBody otherwise ∧
      furtherBranches fuel (ts ++ rest) = .ok (branches, other, rest) := by
  obtain ⟨fuel, rfl⟩ : ∃ k, fuel = k + 1 := ⟨fuel - 1, by omega⟩
  induction more generalizing ts fuel with
  | nil =>
    rw [elseIfs, List.nil_append] at hts hfuel
    cases otherwise with
    | none =>
      obtain rfl := List.map_eq_nil_iff.1 hts
      refine ⟨[], [], rfl, rfl, ?_⟩
      rw [List.nil_append, furtherBranches, hrest]
      rfl
    | some o =>
      obtain ⟨w, ss⟩ := o
      rw [elseText] at hts hfuel
      simp only [List.length_cons, List.length_append, List.length_nil] at hfuel
      obtain ⟨word, ts, rfl, hword, hts⟩ := lexemes_eq_cons hts
      obtain ⟨left, ts, rfl, hleft, hts⟩ := lexemes_eq_cons hts
      obtain ⟨vs, ts, rfl, hvs, hts⟩ := lexemes_eq_append hts
      obtain ⟨right, rfl, hright⟩ := lexemes_eq_singleton hts
      have hleftKind : left.kind = .leftBrace := kind_of_lexeme hleft
      have hbody : ReadsBody w ss := hotherwise (w, ss) rfl
      obtain ⟨ss', hss, hread⟩ := hbody.block rest fuel hleftKind hvs
        (kind_of_lexeme hright) (by omega)
      refine ⟨[], ss', rfl, hss, ?_⟩
      have hif : isKeyword "if" (left :: (vs ++ right :: rest)) = false :=
        not_isKeyword_of_kind (by rw [hleftKind]; exact TokenKind.noConfusion) _
      rw [List.cons_append, List.cons_append, List.append_assoc, List.singleton_append,
        furtherBranches, (isKeyword_cons _).2 hword, if_pos rfl, List.tail_cons, hif,
        if_neg Bool.false_ne_true, hread]
      rfl
  | cons b more ih =>
    have hlen := b.length_text
    simp only [elseIfs, List.cons_append, List.append_assoc, List.length_cons,
      List.length_append] at hts hfuel
    obtain ⟨word, ts, rfl, hword, hts⟩ := lexemes_eq_cons hts
    obtain ⟨ts, qs, rfl, hts, hqs⟩ := lexemes_eq_append hts
    obtain ⟨word', opening, us, close, left, vs, right, rfl, hif, hopen, hus, hclose, hleft, hvs,
      hright⟩ := Branch.tokens hts
    obtain ⟨fuel, rfl⟩ : ∃ k, fuel = k + 1 := ⟨fuel - 1, by omega⟩
    obtain ⟨branches, other, hbranches, hother, hmore⟩ :=
      ih (fun b hb => hconditions b (List.mem_cons_of_mem _ hb))
        (fun b hb => hbodies b (List.mem_cons_of_mem _ hb)) hqs fuel
        (by rw [List.length_append]; omega)
    obtain ⟨body, hbody, hreadBody⟩ := (hbodies b List.mem_cons_self).block (qs ++ rest) (fuel + 1)
      hleft hvs hright (by omega)
    obtain ⟨test, htest, hreadTest⟩ :=
      condition_reads (hconditions b List.mem_cons_self) "else if"
        (left :: (vs ++ right :: (qs ++ rest))) (fuel + 1) hopen hus hclose (by omega)
    refine ⟨(test, body) :: branches, other, ?_, hother, ?_⟩
    · rw [stripBranches, htest, hbody, hbranches]
      rfl
    · simp only [List.cons_append, List.append_assoc, List.nil_append]
      rw [furtherBranches, (isKeyword_cons _).2 hword, if_pos rfl, List.tail_cons,
        (isKeyword_cons _).2 hif, if_pos rfl, List.tail_cons, hreadTest]
      dsimp only [bind, Except.bind]
      rw [hreadBody]
      dsimp only
      rw [hmore]
      rfl

/-! ## Statements -/

/-- The parser reads `w` as the statement `s`, where the word `else` does not follow. -/
def ReadsStatement (w : List Lexeme) (s : Statement) : Prop :=
  ∀ ts rest fuel, lexemes ts = w → isKeyword "else" rest = false → 4 * w.length ≤ fuel →
    ∃ s', s'.strip = s ∧ statement fuel (ts ++ rest) = .ok ([s'], rest)

/-- A statement that begins like an expression is a simple one. -/
theorem statement_simple {t : Token} (ht : t.lexeme.startsExpr = true) (ts : List Token)
    (fuel : Nat) : statement (fuel + 1) (t :: ts) = (do
      let (s, rest) ← simpleStatement fuel (t :: ts)
      let rest ← endStatement rest
      return ([s], rest)) := by
  have hnot (word : String) (hword : word ∈ statementWords) : isKeyword word (t :: ts) = false :=
    not_isKeyword_of_startsExpr hword ht ts
  have hsemicolon : ¬ t.kind = .semicolon := kind_ne_of_startsExpr ht (by decide)
  have hbrace : ¬ t.kind = .leftBrace := kind_ne_of_startsExpr ht (by decide)
  rw [statement]
  simp only [nextKind, if_neg hsemicolon, if_neg hbrace, hnot "var" (by decide),
    hnot "let" (by decide), hnot "const" (by decide), hnot "if" (by decide),
    hnot "while" (by decide), hnot "for" (by decide), Bool.or_false, Bool.false_eq_true, if_false]

theorem Simple.readsStatement {w : List Lexeme} {s : Statement} (h : Simple w s) :
    ReadsStatement (w ++ [.semicolon]) s := by
  intro ts rest fuel hts _ hfuel
  rw [List.length_append, List.length_singleton] at hfuel
  obtain ⟨fuel, rfl⟩ : ∃ k, fuel = k + 1 := ⟨fuel - 1, by omega⟩
  obtain ⟨us, ts, rfl, hus, hts⟩ := lexemes_eq_append hts
  obtain ⟨semicolon, rfl, hsemi⟩ := lexemes_eq_singleton hts
  have hkind : semicolon.kind = .semicolon := kind_of_lexeme hsemi
  have hends : Ends (semicolon :: rest) := ends_of_kind hkind (by decide) (by decide) (by decide)
  obtain ⟨s', hs, hread⟩ := h.reads us (semicolon :: rest) fuel hus hends (by omega)
  refine ⟨s', hs, ?_⟩
  obtain ⟨l, v, rfl, hl⟩ := h.head
  obtain ⟨t, us, rfl, ht, -⟩ := lexemes_eq_cons hus
  rw [List.append_assoc, List.singleton_append, List.cons_append, statement_simple (ht ▸ hl)]
  rw [List.cons_append] at hread
  rw [hread]
  dsimp only [bind, Except.bind]
  rw [endStatement, nextKind, hkind]
  rfl

/-- A statement that begins with a word of the language goes by that word. -/
theorem not_isKeyword_of_ne {word other : String} {t : Token} (ht : t.lexeme = .keyword word)
    (hne : other ≠ word) (ts : List Token) : isKeyword other (t :: ts) = false := by
  rw [Bool.eq_false_iff, Ne, isKeyword_cons, ht]
  exact fun h => hne (congrArg Lexeme.text h).symm

theorem nextKind_of_keyword {word : String} {t : Token} (ht : t.lexeme = .keyword word)
    (ts : List Token) : nextKind (t :: ts) = .keyword := kind_of_lexeme ht

theorem Declares.readsStatement {w : List Lexeme} {ds : List (String × Option Expr)}
    (h : Declares w ds) :
    ReadsStatement (.keyword "var" :: (w ++ [.semicolon])) (.declare .start ds) := by
  intro ts rest fuel hts _ hfuel
  rw [List.length_cons, List.length_append, List.length_singleton] at hfuel
  obtain ⟨fuel, rfl⟩ : ∃ k, fuel = k + 1 := ⟨fuel - 1, by omega⟩
  obtain ⟨word, ts, rfl, hword, hts⟩ := lexemes_eq_cons hts
  obtain ⟨us, ts, rfl, hus, hts⟩ := lexemes_eq_append hts
  obtain ⟨semicolon, rfl, hsemi⟩ := lexemes_eq_singleton hts
  have hkind : nextKind (semicolon :: rest) = .semicolon := kind_of_lexeme hsemi
  have hends : Ends (semicolon :: rest) := ends_of_kind hkind (by decide) (by decide) (by decide)
  obtain ⟨ds', rfl, hread⟩ :=
    h.reads fuel hus hends (hkind ▸ by decide) (by omega) (by omega)
  refine ⟨.declare word.pos ds', rfl, ?_⟩
  rw [List.cons_append, List.append_assoc, List.singleton_append, statement]
  simp only [nextKind_of_keyword hword, (isKeyword_cons _).2 hword, Bool.true_or, if_true,
    reduceCtorEq, if_false, List.tail_cons, hread]
  dsimp only [bind, Except.bind]
  rw [endStatement, hkind]
  rfl

theorem readsStatement_ifElse {first : Branch} {more : List Branch}
    {otherwise : Option (List Lexeme × List Statement)}
    (hconditions : ∀ b ∈ first :: more, Spells 0 b.conditionText b.condition)
    (hbodies : ∀ b ∈ first :: more, ReadsBody b.bodyText b.body)
    (hotherwise : ∀ o ∈ otherwise, ReadsBody o.1 o.2) :
    ReadsStatement (first.text ++ (elseIfs more ++ elseText otherwise))
      (.ifElse .start ((first :: more).map Branch.parts) (elseBody otherwise)) := by
  intro ts rest fuel hts hrest hfuel
  have hlen := first.length_text
  rw [List.length_append] at hfuel
  obtain ⟨fuel, rfl⟩ : ∃ k, fuel = k + 1 := ⟨fuel - 1, by omega⟩
  obtain ⟨ts, qs, rfl, hts, hqs⟩ := lexemes_eq_append hts
  obtain ⟨word, opening, us, close, left, vs, right, rfl, hif, hopen, hus, hclose, hleft, hvs,
    hright⟩ := Branch.tokens hts
  obtain ⟨branches, other, hbranches, hother, hmore⟩ :=
    furtherBranches_reads (fun b hb => hconditions b (List.mem_cons_of_mem _ hb))
      (fun b hb => hbodies b (List.mem_cons_of_mem _ hb)) hotherwise fuel hqs hrest (by omega)
  obtain ⟨body, hbody, hreadBody⟩ := (hbodies first List.mem_cons_self).block (qs ++ rest) fuel
    hleft hvs hright (by omega)
  obtain ⟨test, htest, hreadTest⟩ :=
    condition_reads (hconditions first List.mem_cons_self) "if"
      (left :: (vs ++ right :: (qs ++ rest))) fuel hopen hus hclose (by omega)
  refine ⟨.ifElse word.pos ((test, body) :: branches) other, ?_, ?_⟩
  · rw [Statement.strip, stripBranches, htest, hbody, hbranches, hother]
    rfl
  · have hnot (other : String) (hne : other ≠ "if") (ts : List Token) :
        isKeyword other (word :: ts) = false := not_isKeyword_of_ne hif hne ts
    simp only [List.cons_append, List.append_assoc, List.nil_append]
    rw [statement]
    simp only [nextKind_of_keyword hif, reduceCtorEq, if_false, hnot "var" (by decide),
      hnot "let" (by decide), hnot "const" (by decide), Bool.or_false, Bool.false_eq_true,
      (isKeyword_cons _).2 hif, if_true, List.tail_cons, hreadTest]
    dsimp only [bind, Except.bind]
    rw [hreadBody]
    dsimp only
    rw [hmore]
    rfl

theorem readsStatement_while {u v : List Lexeme} {condition : Expr} {body : List Statement}
    (hcondition : Spells 0 u condition) (hbody : ReadsBody v body) :
    ReadsStatement (.keyword "while" :: .leftParen :: (u ++ .rightParen :: .leftBrace ::
        (v ++ [.rightBrace])))
      (.whileLoop .start condition body) := by
  intro ts rest fuel hts _ hfuel
  simp only [List.length_cons, List.length_append, List.length_nil] at hfuel
  obtain ⟨fuel, rfl⟩ : ∃ k, fuel = k + 1 := ⟨fuel - 1, by omega⟩
  obtain ⟨word, ts, rfl, hword, hts⟩ := lexemes_eq_cons hts
  obtain ⟨opening, ts, rfl, hopen, hts⟩ := lexemes_eq_cons hts
  obtain ⟨us, ts, rfl, hus, hts⟩ := lexemes_eq_append hts
  obtain ⟨close, ts, rfl, hclose, hts⟩ := lexemes_eq_cons hts
  obtain ⟨left, ts, rfl, hleft, hts⟩ := lexemes_eq_cons hts
  obtain ⟨vs, ts, rfl, hvs, hts⟩ := lexemes_eq_append hts
  obtain ⟨right, rfl, hright⟩ := lexemes_eq_singleton hts
  obtain ⟨body', hbody', hreadBody⟩ := hbody.block rest fuel (kind_of_lexeme hleft) hvs
    (kind_of_lexeme hright) (by omega)
  obtain ⟨test, htest, hreadTest⟩ := condition_reads hcondition "while"
    (left :: (vs ++ right :: rest)) fuel (kind_of_lexeme hopen) hus (kind_of_lexeme hclose)
    (by omega)
  refine ⟨.whileLoop word.pos test body', by rw [Statement.strip, htest, hbody'], ?_⟩
  have hnot (other : String) (hne : other ≠ "while") (ts : List Token) :
      isKeyword other (word :: ts) = false := not_isKeyword_of_ne hword hne ts
  simp only [List.cons_append, List.append_assoc, List.nil_append]
  rw [statement]
  simp only [nextKind_of_keyword hword, reduceCtorEq, if_false, hnot "var" (by decide),
    hnot "let" (by decide), hnot "const" (by decide), hnot "if" (by decide), Bool.or_false,
    Bool.false_eq_true, (isKeyword_cons _).2 hword, if_true, List.tail_cons, hreadTest]
  dsimp only [bind, Except.bind]
  rw [hreadBody]
  rfl

/-! The three parts of the header of a counting loop. -/

theorem Initialises.reads {w : List Lexeme} {init : Option Statement} (h : Initialises w init)
    {ts : List Token} (rest : List Token) (fuel : Nat) (hts : lexemes ts = w) (hrest : nextKind rest = .semicolon)
    (hfuel : 4 * w.length ≤ fuel) :
    ∃ init', stripOption init' = init ∧ loopInit fuel (ts ++ rest) = .ok (init', rest) := by
  have hends : Ends rest := ends_of_kind hrest (by decide) (by decide) (by decide)
  cases h with
  | absent =>
    obtain rfl := List.map_eq_nil_iff.1 hts
    refine ⟨none, rfl, ?_⟩
    rw [List.nil_append, loopInit, if_pos hrest]
  | @simple w s h =>
    obtain ⟨s', rfl, hread⟩ := h.reads ts rest fuel hts hends hfuel
    refine ⟨some s', rfl, ?_⟩
    obtain ⟨l, v, rfl, hl⟩ := h.head
    obtain ⟨t, us, rfl, ht, -⟩ := lexemes_eq_cons hts
    have hl' : t.lexeme.startsExpr = true := ht ▸ hl
    have hsemicolon : ¬ nextKind (t :: us ++ rest) = .semicolon :=
      kind_ne_of_startsExpr hl' (by decide)
    rw [loopInit, if_neg hsemicolon, hread, List.cons_append,
      not_isKeyword_of_startsExpr (by decide) hl', not_isKeyword_of_startsExpr (by decide) hl']
    rfl
  | @declare w ds h =>
    rw [List.length_cons] at hfuel
    obtain ⟨word, us, rfl, hword, hus⟩ := lexemes_eq_cons hts
    obtain ⟨ds', rfl, hread⟩ := h.reads fuel hus hends (hrest ▸ by decide) (by omega) (by omega)
    refine ⟨some (.declare word.pos ds'), rfl, ?_⟩
    rw [List.cons_append, loopInit]
    simp only [nextKind_of_keyword hword, (isKeyword_cons _).2 hword, reduceCtorEq, if_false,
      Bool.true_or, if_true, List.tail_cons, hread]
    rfl

/-- There is no condition and the parser sees so, or it reads the condition. -/
theorem Conditions.reads {w : List Lexeme} {condition : Option Expr} (h : Conditions w condition)
    {ts : List Token} (rest : List Token) (fuel : Nat) (hts : lexemes ts = w) (hrest : nextKind rest = .semicolon)
    (hfuel : 4 * w.length ≤ fuel) :
    (condition = none ∧ ts = []) ∨
      (nextKind (ts ++ rest) ≠ .semicolon ∧ ∃ e', condition = some e'.strip ∧
        expression fuel (ts ++ rest) = .ok (e', rest)) := by
  cases h with
  | absent => exact .inl ⟨rfl, List.map_eq_nil_iff.1 hts⟩
  | @present w e h =>
    have hends : Ends rest := ends_of_kind hrest (by decide) (by decide) (by decide)
    obtain ⟨e', rfl, hread⟩ := h.reads.1 ts rest fuel hts hends hfuel
    refine .inr ⟨?_, e', rfl, hread⟩
    obtain ⟨l, v, rfl, hl⟩ := h.starts
    obtain ⟨t, us, rfl, ht, -⟩ := lexemes_eq_cons hts
    exact kind_ne_of_startsExpr (ht ▸ hl) (by decide)

/-- There is no update and the parser sees so, or it reads the update. -/
theorem Updates.reads {w : List Lexeme} {update : Option Statement} (h : Updates w update)
    {ts : List Token} (rest : List Token) (fuel : Nat) (hts : lexemes ts = w)
    (hrest : nextKind rest = .rightParen) (hfuel : 4 * w.length ≤ fuel) :
    (update = none ∧ ts = []) ∨
      (nextKind (ts ++ rest) ≠ .rightParen ∧ ∃ s', update = some s'.strip ∧
        simpleStatement fuel (ts ++ rest) = .ok (s', rest)) := by
  cases h with
  | absent => exact .inl ⟨rfl, List.map_eq_nil_iff.1 hts⟩
  | @present w s h =>
    have hends : Ends rest := ends_of_kind hrest (by decide) (by decide) (by decide)
    obtain ⟨s', rfl, hread⟩ := h.reads ts rest fuel hts hends hfuel
    refine .inr ⟨?_, s', rfl, hread⟩
    obtain ⟨l, v, rfl, hl⟩ := h.head
    obtain ⟨t, us, rfl, ht, -⟩ := lexemes_eq_cons hts
    exact kind_ne_of_startsExpr (ht ▸ hl) (by decide)

theorem expect_of_kind {kind : TokenKind} {t : Token} (ht : t.kind = kind) (what : Missing)
    (ts : List Token) : expect kind what (t :: ts) = .ok ts := if_pos ht

theorem readsStatement_for {s t u v : List Lexeme} {init update : Option Statement}
    {condition : Option Expr} {body : List Statement} (hinit : Initialises s init)
    (hcondition : Conditions t condition) (hupdate : Updates u update) (hbody : ReadsBody v body) :
    ReadsStatement (.keyword "for" :: .leftParen :: (s ++ .semicolon :: (t ++ .semicolon ::
        (u ++ .rightParen :: .leftBrace :: (v ++ [.rightBrace])))))
      (.forLoop .start init condition update body) := by
  intro ts rest fuel hts _ hfuel
  simp only [List.length_cons, List.length_append, List.length_nil] at hfuel
  obtain ⟨fuel, rfl⟩ : ∃ k, fuel = k + 1 := ⟨fuel - 1, by omega⟩
  obtain ⟨word, ts, rfl, hword, hts⟩ := lexemes_eq_cons hts
  obtain ⟨opening, ts, rfl, hopen, hts⟩ := lexemes_eq_cons hts
  obtain ⟨ss, ts, rfl, hss, hts⟩ := lexemes_eq_append hts
  obtain ⟨semi₁, ts, rfl, hsemi₁, hts⟩ := lexemes_eq_cons hts
  obtain ⟨cs, ts, rfl, hcs, hts⟩ := lexemes_eq_append hts
  obtain ⟨semi₂, ts, rfl, hsemi₂, hts⟩ := lexemes_eq_cons hts
  obtain ⟨us, ts, rfl, hus, hts⟩ := lexemes_eq_append hts
  obtain ⟨close, ts, rfl, hclose, hts⟩ := lexemes_eq_cons hts
  obtain ⟨left, ts, rfl, hleft, hts⟩ := lexemes_eq_cons hts
  obtain ⟨vs, ts, rfl, hvs, hts⟩ := lexemes_eq_append hts
  obtain ⟨right, rfl, hright⟩ := lexemes_eq_singleton hts
  have hopenKind : opening.kind = .leftParen := kind_of_lexeme hopen
  have hsemi₁Kind : semi₁.kind = .semicolon := kind_of_lexeme hsemi₁
  have hsemi₂Kind : semi₂.kind = .semicolon := kind_of_lexeme hsemi₂
  have hcloseKind : close.kind = .rightParen := kind_of_lexeme hclose
  obtain ⟨body', hbody', hreadBody⟩ := hbody.block rest fuel (kind_of_lexeme hleft) hvs
    (kind_of_lexeme hright) (by omega)
  have hreadUpdate := hupdate.reads (close :: left :: (vs ++ right :: rest)) fuel hus hcloseKind
    (by omega)
  have hreadCondition := hcondition.reads (semi₂ :: (us ++ close :: left :: (vs ++ right :: rest)))
    fuel hcs hsemi₂Kind (by omega)
  obtain ⟨init', rfl, hreadInit⟩ := hinit.reads
    (semi₁ :: (cs ++ semi₂ :: (us ++ close :: left :: (vs ++ right :: rest)))) fuel hss hsemi₁Kind
    (by omega)
  have hnot (other : String) (hne : other ≠ "for") (ts : List Token) :
      isKeyword other (word :: ts) = false := not_isKeyword_of_ne hword hne ts
  simp only [List.cons_append, List.append_assoc, List.nil_append]
  rw [statement]
  simp only [nextKind_of_keyword hword, reduceCtorEq, if_false, hnot "var" (by decide),
    hnot "let" (by decide), hnot "const" (by decide), hnot "if" (by decide),
    hnot "while" (by decide), Bool.or_false, Bool.false_eq_true, (isKeyword_cons _).2 hword,
    if_true, List.tail_cons, expect_of_kind hopenKind, bind, Except.bind, hreadInit,
    expect_of_kind hsemi₁Kind]
  -- the header may lack its condition, its update or both
  rcases hreadCondition with ⟨rfl, rfl⟩ | ⟨hkindC, test, rfl, hreadTest⟩ <;>
    rcases hreadUpdate with ⟨rfl, rfl⟩ | ⟨hkindU, step, rfl, hreadStep⟩
  · refine ⟨.forLoop word.pos init' none none body', by rw [Statement.strip, hbody']; rfl, ?_⟩
    simp only [List.nil_append, nextKind_cons, hsemi₂Kind, if_true, expect_of_kind hsemi₂Kind,
      hcloseKind, expect_of_kind hcloseKind, hreadBody]
    rfl
  · refine ⟨.forLoop word.pos init' none (some step) body', by rw [Statement.strip, hbody']; rfl, ?_⟩
    simp only [List.nil_append, nextKind_cons, hsemi₂Kind, if_true, expect_of_kind hsemi₂Kind,
      if_neg hkindU, hreadStep, Except.map, expect_of_kind hcloseKind, hreadBody]
    rfl
  · refine ⟨.forLoop word.pos init' (some test) none body', by rw [Statement.strip, hbody']; rfl, ?_⟩
    rw [List.nil_append] at hkindC hreadTest
    simp only [if_neg hkindC, hreadTest, Except.map, expect_of_kind hsemi₂Kind, List.nil_append,
      nextKind_cons, hcloseKind, if_true, expect_of_kind hcloseKind, hreadBody]
    rfl
  · refine ⟨.forLoop word.pos init' (some test) (some step) body',
      by rw [Statement.strip, hbody']; rfl, ?_⟩
    simp only [if_neg hkindC, hreadTest, Except.map, expect_of_kind hsemi₂Kind, if_neg hkindU,
      hreadStep, expect_of_kind hcloseKind, hreadBody]
    rfl

/-! ## Statements one after the other -/

/-- Can a statement begin with the token, other than with a brace or a semicolon? -/
def Lexeme.startsStatement (l : Lexeme) : Bool :=
  l.startsExpr || l == .keyword "var" || l == .keyword "if" || l == .keyword "while" ||
    l == .keyword "for"

theorem startsStatement_of_startsExpr {l : Lexeme} (h : l.startsExpr = true) :
    l.startsStatement = true := by
  rw [Lexeme.startsStatement, h]
  rfl

theorem Writes.head {w : List Lexeme} {ss : List Statement} (h : Writes w ss) :
    w = [] ∨ ∃ l v, w = l :: v ∧ l.startsStatement = true := by
  cases h with
  | nil => exact .inl rfl
  | simple hs _ =>
    obtain ⟨l, v, rfl, hl⟩ := hs.head
    exact .inr ⟨l, _, rfl, startsStatement_of_startsExpr hl⟩
  | declare _ _ => exact .inr ⟨_, _, rfl, by decide⟩
  | ifElse _ _ _ _ => exact .inr ⟨_, _, rfl, by decide⟩
  | whileLoop _ _ _ => exact .inr ⟨_, _, rfl, by decide⟩
  | forLoop _ _ _ _ _ => exact .inr ⟨_, _, rfl, by decide⟩

theorem kind_of_startsStatement {l : Lexeme} (h : l.startsStatement = true) :
    l.kind ≠ .rightBrace ∧ l.kind ≠ .endOfInput := by
  obtain ⟨kind, text⟩ := l
  constructor
  · rintro rfl
    cases h
  · rintro rfl
    cases h

theorem not_else_of_startsStatement {t : Token} (h : t.lexeme.startsStatement = true)
    (ts : List Token) : isKeyword "else" (t :: ts) = false := by
  rw [Bool.eq_false_iff, Ne, isKeyword_cons]
  intro heq
  rw [heq] at h
  revert h
  decide

/-- No statement that is written is taken for the part of an earlier one. -/
theorem Writes.not_else {w : List Lexeme} {ss : List Statement} (h : Writes w ss) {ts : List Token}
    (hts : lexemes ts = w) {close : Token} (hclose : close.kind ≠ .keyword) (rest : List Token) :
    isKeyword "else" (ts ++ close :: rest) = false := by
  rcases h.head with rfl | ⟨l, v, rfl, hl⟩
  · obtain rfl := List.map_eq_nil_iff.1 hts
    exact not_isKeyword_of_kind hclose rest
  · obtain ⟨t, us, rfl, ht, -⟩ := lexemes_eq_cons hts
    exact not_else_of_startsStatement (ht ▸ hl) _

/-- The parser reads `w` up to the end of the input as the statements `ss`. -/
def ReadsAll (w : List Lexeme) (ss : List Statement) : Prop :=
  ∀ ts close fuel, lexemes ts = w → close.kind = .endOfInput → 4 * w.length + 1 ≤ fuel →
    ∃ ss', stripStatements ss' = ss ∧ statements fuel (ts ++ [close]) = .ok (ss', [close])

section Sequence

variable {v w : List Lexeme} {s : Statement} {ss : List Statement} (hs : ReadsStatement v s)
  (hv : ∃ l u, v = l :: u ∧ l.startsStatement = true) (hw : Writes w ss)

include hs hv hw

theorem ReadsBody.cons (h : ReadsBody w ss) : ReadsBody (v ++ w) (s :: ss) := by
  intro ts close rest fuel hts hclose hfuel
  rw [List.length_append] at hfuel
  obtain ⟨fuel, rfl⟩ : ∃ k, fuel = k + 1 := ⟨fuel - 1, by omega⟩
  obtain ⟨us, vs, rfl, hus, hvs⟩ := lexemes_eq_append hts
  have helse := hw.not_else hvs (by rw [hclose]; exact TokenKind.noConfusion) rest
  obtain ⟨s', rfl, hread⟩ := hs us _ fuel hus helse (by omega)
  obtain ⟨l, u, rfl, hl⟩ := hv
  rw [List.length_cons] at hfuel
  obtain ⟨ss', rfl, hmore⟩ := h vs close rest fuel hvs hclose (by omega)
  obtain ⟨t, us, rfl, ht, -⟩ := lexemes_eq_cons hus
  obtain ⟨hbrace, hend⟩ := kind_of_startsStatement hl
  rw [← kind_of_lexeme ht] at hbrace hend
  refine ⟨s' :: ss', rfl, ?_⟩
  rw [List.append_assoc, blockBody]
  rw [List.cons_append] at hread ⊢
  rw [nextKind, if_neg hbrace, if_neg hend, hread]
  dsimp only [bind, Except.bind]
  rw [hmore]
  rfl

theorem ReadsAll.cons (h : ReadsAll w ss) : ReadsAll (v ++ w) (s :: ss) := by
  intro ts close fuel hts hclose hfuel
  rw [List.length_append] at hfuel
  obtain ⟨fuel, rfl⟩ : ∃ k, fuel = k + 1 := ⟨fuel - 1, by omega⟩
  obtain ⟨us, vs, rfl, hus, hvs⟩ := lexemes_eq_append hts
  have helse := hw.not_else hvs (by rw [hclose]; exact TokenKind.noConfusion) []
  obtain ⟨s', rfl, hread⟩ := hs us _ fuel hus helse (by omega)
  obtain ⟨l, u, rfl, hl⟩ := hv
  rw [List.length_cons] at hfuel
  obtain ⟨ss', rfl, hmore⟩ := h vs close fuel hvs hclose (by omega)
  obtain ⟨t, us, rfl, ht, -⟩ := lexemes_eq_cons hus
  obtain ⟨-, hend⟩ := kind_of_startsStatement hl
  rw [← kind_of_lexeme ht] at hend
  refine ⟨s' :: ss', rfl, ?_⟩
  rw [List.append_assoc, statements]
  rw [List.cons_append] at hread ⊢
  rw [nextKind, if_neg hend, hread]
  dsimp only [bind, Except.bind]
  rw [hmore]
  rfl

end Sequence

theorem readsBody_nil : ReadsBody [] [] := by
  intro ts close rest fuel hts hclose hfuel
  obtain ⟨fuel, rfl⟩ : ∃ k, fuel = k + 1 := ⟨fuel - 1, by omega⟩
  obtain rfl := List.map_eq_nil_iff.1 hts
  refine ⟨[], rfl, ?_⟩
  rw [List.nil_append, blockBody, nextKind, if_pos hclose]
  rfl

theorem readsAll_nil : ReadsAll [] [] := by
  intro ts close fuel hts hclose hfuel
  obtain ⟨fuel, rfl⟩ : ∃ k, fuel = k + 1 := ⟨fuel - 1, by omega⟩
  obtain rfl := List.map_eq_nil_iff.1 hts
  refine ⟨[], rfl, ?_⟩
  rw [List.nil_append, statements, nextKind, if_pos hclose]

/-- **The parser reads what is written**, inside braces and up to the end of the input. -/
theorem Writes.reads {w : List Lexeme} {ss : List Statement} (h : Writes w ss) :
    ReadsBody w ss ∧ ReadsAll w ss := by
  have step {v w : List Lexeme} {s : Statement} {ss : List Statement} (hs : ReadsStatement v s)
      (hv : ∃ l u, v = l :: u ∧ l.startsStatement = true) (hw : Writes w ss)
      (ih : ReadsBody w ss ∧ ReadsAll w ss) :
      ReadsBody (v ++ w) (s :: ss) ∧ ReadsAll (v ++ w) (s :: ss) :=
    ⟨.cons hs hv hw ih.1, .cons hs hv hw ih.2⟩
  induction h with
  | nil => exact ⟨readsBody_nil, readsAll_nil⟩
  | simple hs hrest ih =>
    obtain ⟨l, v, hv, hl⟩ := hs.head
    have hstarts := startsStatement_of_startsExpr hl
    have := step hs.readsStatement ⟨l, v ++ [.semicolon], by rw [hv]; rfl, hstarts⟩ hrest ih
    simpa using this
  | declare hds hrest ih =>
    have := step hds.readsStatement ⟨_, _, rfl, by decide⟩ hrest ih
    simpa using this
  | ifElse hconditions hbodies hotherwise hrest ihbodies ihotherwise ih =>
    have := step (readsStatement_ifElse hconditions (fun b hb => (ihbodies b hb).1)
      fun o ho => (ihotherwise o ho).1) ⟨_, _, rfl, by decide⟩ hrest ih
    simpa using this
  | whileLoop hcondition hbody hrest ihbody ih =>
    have := step (readsStatement_while hcondition ihbody.1) ⟨_, _, rfl, by decide⟩ hrest ih
    simpa using this
  | forLoop hinit hcondition hupdate hbody hrest ihbody ih =>
    have := step (readsStatement_for hinit hcondition hupdate ihbody.1) ⟨_, _, rfl, by decide⟩
      hrest ih
    simpa using this

/-- **What is written is parsed as what it says**, to the end of the input. -/
theorem parseTokens_of_writes {w : List Lexeme} {ss : List Statement} (h : Writes w ss)
    {ts : List Token} (hts : lexemes ts = w) (pos : Position) :
    ∃ p, parseTokens (ts ++ [Token.closing pos]) = .ok p ∧ stripStatements p.body = ss := by
  have hlen := lexemes_length ts
  have hfuel : 4 * w.length + 1 ≤ fuelFor (ts ++ [Token.closing pos]) := by
    rw [fuelFor, List.length_append, ← hts, hlen]
    omega
  obtain ⟨ss', hss, hread⟩ := h.reads.2 ts (Token.closing pos) _ hts rfl hfuel
  refine ⟨⟨ss'⟩, ?_, hss⟩
  rw [parseTokens, closed_closing, hread]
  rfl

end Script
end VisualBlocks

import VisualBlocks.Proofs.Script.Grammar
import Mathlib.Tactic.SplitIfs

/-!
# The parser reads what is spelt

**Whatever spells an expression is read as that expression** (`Spells.reads`), at any positions and
whatever follows it, as long as what follows cannot continue it.

The parser works at three levels, and the induction on the spelling speaks of all three:

* `unary` reads one operand (`ReadsUnary`);
* `binary` reads operands and comes to the loop over operators with what it has read
  (`ReadsBinary`), so that a longer operation can go on from there;
* `expression` reads the whole (`ReadsExpr`).

Each is told how much fuel it needs, in terms of the number of tokens.
-/

set_option autoImplicit false

namespace VisualBlocks
namespace Script

/-! ## What follows -/

/-- What follows does not go on with an operator that binds more tightly than `p`, and does not
make a call out of a name. -/
structure Follows (p : Nat) (rest : List Token) : Prop where
  noCall : nextKind rest ≠ .leftParen
  looser : ∀ t op, rest.head? = some t → binaryOp? t = some op → op.precedence ≤ p

/-- What follows cannot belong to an expression. -/
structure Ends (rest : List Token) : Prop where
  noCall : nextKind rest ≠ .leftParen
  noOperator : nextKind rest ≠ .operator
  noQuestion : nextKind rest ≠ .question

theorem binaryOp?_of_kind {t : Token} (h : t.kind ≠ .operator) : binaryOp? t = none := by
  rw [binaryOp?, if_neg h]

theorem Ends.binaryOp? {rest : List Token} (h : Ends rest) {t : Token} (ht : rest.head? = some t) :
    binaryOp? t = none := by
  cases rest with
  | nil => cases ht
  | cons u us =>
    cases ht
    exact binaryOp?_of_kind h.noOperator

theorem Ends.follows {rest : List Token} (h : Ends rest) (p : Nat) : Follows p rest where
  noCall := h.noCall
  looser t op ht hop := by
    rw [h.binaryOp? ht] at hop
    cases hop

theorem Follows.mono {p q : Nat} {rest : List Token} (h : Follows p rest) (hpq : p ≤ q) :
    Follows q rest where
  noCall := h.noCall
  looser t op ht hop := Nat.le_trans (h.looser t op ht hop) hpq

theorem ends_of_kind {kind : TokenKind} {rest : List Token} (h : nextKind rest = kind)
    (hcall : kind ≠ .leftParen) (hop : kind ≠ .operator) (hq : kind ≠ .question) : Ends rest :=
  ⟨h ▸ hcall, h ▸ hop, h ▸ hq⟩

/-! ## The operators as tokens -/

theorem ofSymbol?_symbol (op : BinaryOp) : BinaryOp.ofSymbol? op.symbol = some op := by
  cases op <;> decide

theorem binaryOp?_operator (op : BinaryOp) {t : Token} (h : t.lexeme = .operator op.symbol) :
    binaryOp? t = some op := by
  obtain ⟨kind, text, pos⟩ := t
  obtain ⟨rfl, rfl⟩ := Lexeme.mk.inj h
  rw [binaryOp?, if_pos rfl]
  exact ofSymbol?_symbol op

theorem unaryOp?_operator (op : UnaryOp) {t : Token} (h : t.lexeme = .operator op.symbol) :
    unaryOp? t = some op := by
  obtain ⟨kind, text, pos⟩ := t
  obtain ⟨rfl, rfl⟩ := Lexeme.mk.inj h
  cases op <;> rfl

theorem unaryOp?_of_kind {t : Token} (h : t.kind ≠ .operator) : unaryOp? t = none := by
  rw [unaryOp?, if_neg h]

theorem keywordLiteral?_strip {t : Token} {text : String} {e : Expr}
    (ht : t.lexeme = .keyword text) (h : keywordLiteral? ⟨.keyword, text, .start⟩ = some e) :
    ∃ e', keywordLiteral? t = some e' ∧ e'.strip = e := by
  obtain ⟨kind, word, pos⟩ := t
  obtain ⟨rfl, rfl⟩ := Lexeme.mk.inj ht
  rw [keywordLiteral?] at h ⊢
  dsimp only at h ⊢
  split_ifs at h ⊢ <;> cases h <;> exact ⟨_, rfl, rfl⟩

/-! ## The three levels -/

/-- The parser reads `w` as the operand `e`. -/
def ReadsUnary (w : List Lexeme) (e : Expr) : Prop :=
  ∀ ts rest fuel, lexemes ts = w → nextKind rest ≠ .leftParen → 4 * w.length ≤ fuel + 2 →
    ∃ e', e'.strip = e ∧ unary fuel (ts ++ rest) = .ok (e', rest)

/-- The parser reads `w` as `e`, among operators that bind at most as tightly as `p`, and is ready
for more of them. -/
def ReadsBinary (p : Nat) (w : List Lexeme) (e : Expr) : Prop :=
  ∀ q ts rest fuel, 1 ≤ q → q ≤ p → lexemes ts = w → Follows p rest → 4 * w.length ≤ fuel + 1 →
    ∃ e' fuel', e'.strip = e ∧ fuel ≤ fuel' + w.length ∧
      binary fuel q (ts ++ rest) = operators fuel' q e' rest

/-- The parser reads `w` as the whole expression `e`. -/
def ReadsExpr (w : List Lexeme) (e : Expr) : Prop :=
  ∀ ts rest fuel, lexemes ts = w → Ends rest → 4 * w.length ≤ fuel →
    ∃ e', e'.strip = e ∧ expression fuel (ts ++ rest) = .ok (e', rest)

theorem lexemes_length (ts : List Token) : (lexemes ts).length = ts.length := List.length_map _

theorem lexemes_eq_cons {ts : List Token} {l : Lexeme} {w : List Lexeme}
    (h : lexemes ts = l :: w) : ∃ t us, ts = t :: us ∧ t.lexeme = l ∧ lexemes us = w := by
  obtain ⟨t, us, rfl, ht, hus⟩ := List.map_eq_cons_iff.1 h
  exact ⟨t, us, rfl, ht, hus⟩

theorem lexemes_eq_append {ts : List Token} {v w : List Lexeme} (h : lexemes ts = v ++ w) :
    ∃ us vs, ts = us ++ vs ∧ lexemes us = v ∧ lexemes vs = w := by
  obtain ⟨us, vs, rfl, hus, hvs⟩ := List.map_eq_append_iff.1 h
  exact ⟨us, vs, rfl, hus, hvs⟩

theorem lexemes_eq_singleton {ts : List Token} {l : Lexeme} (h : lexemes ts = [l]) :
    ∃ t, ts = [t] ∧ t.lexeme = l := by
  obtain ⟨t, us, rfl, ht, hus⟩ := lexemes_eq_cons h
  obtain rfl := List.map_eq_nil_iff.1 hus
  exact ⟨t, rfl, ht⟩

theorem kind_of_lexeme {t : Token} {l : Lexeme} (h : t.lexeme = l) : t.kind = l.kind :=
  congrArg Lexeme.kind h

theorem text_of_lexeme {t : Token} {l : Lexeme} (h : t.lexeme = l) : t.text = l.text :=
  congrArg Lexeme.text h

/-- The loop over operators ends where nothing binds tightly enough. -/
theorem operators_stop {fuel q : Nat} {e : Expr} {rest : List Token} (hfuel : 0 < fuel)
    (h : ∀ t op, rest.head? = some t → binaryOp? t = some op → op.precedence < q) :
    operators fuel q e rest = .ok (e, rest) := by
  obtain ⟨fuel, rfl⟩ : ∃ k, fuel = k + 1 := ⟨fuel - 1, by omega⟩
  rw [operators.eq_def]
  cases rest with
  | nil => rfl
  | cons t rest =>
    dsimp only
    cases hop : binaryOp? t with
    | none => rfl
    | some op => exact if_pos (h t op rfl hop)

theorem ReadsUnary.binary {w : List Lexeme} {e : Expr} (h : ReadsUnary w e) (hw : w ≠ []) (p : Nat) :
    ReadsBinary p w e := by
  intro q ts rest fuel _ _ hts hrest hfuel
  have hpos := List.length_pos_iff.2 hw
  obtain ⟨fuel, rfl⟩ : ∃ k, fuel = k + 1 := ⟨fuel - 1, by omega⟩
  obtain ⟨e', he', hread⟩ := h ts rest fuel hts hrest.noCall (by omega)
  refine ⟨e', fuel, he', by omega, ?_⟩
  rw [Script.binary, hread]
  rfl

theorem ReadsBinary.expr {p : Nat} {w : List Lexeme} {e : Expr} (h : ReadsBinary p w e)
    (hp : 1 ≤ p) (hw : w ≠ []) : ReadsExpr w e := by
  intro ts rest fuel hts hrest hfuel
  have hpos := List.length_pos_iff.2 hw
  obtain ⟨fuel, rfl⟩ : ∃ k, fuel = k + 1 := ⟨fuel - 1, by omega⟩
  obtain ⟨e', fuel', he', hle, hread⟩ :=
    h 1 ts rest fuel (Nat.le_refl 1) hp hts (hrest.follows p) (by omega)
  refine ⟨e', he', ?_⟩
  have hstop : operators fuel' 1 e' rest = .ok (e', rest) := by
    refine operators_stop (by omega) fun t op ht hop => ?_
    rw [hrest.binaryOp? ht] at hop
    cases hop
  rw [expression, hread, hstop]
  cases rest with
  | nil => rfl
  | cons t rest =>
    obtain ⟨kind, text, pos⟩ := t
    have hq : kind ≠ .question := hrest.noQuestion
    cases kind <;> first | rfl | contradiction

/-! ## Operands -/

/-- The parser reads `w` as `e` where no operator stands before it. -/
def ReadsPrimary (w : List Lexeme) (e : Expr) : Prop :=
  ∀ ts rest fuel, lexemes ts = w → nextKind rest ≠ .leftParen → 4 * w.length ≤ fuel + 3 →
    ∃ e', e'.strip = e ∧ primary fuel (ts ++ rest) = .ok (e', rest)

theorem ReadsPrimary.unary {l : Lexeme} {w : List Lexeme} {e : Expr} (h : ReadsPrimary (l :: w) e)
    (hl : l.kind ≠ .operator) : ReadsUnary (l :: w) e := by
  intro ts rest fuel hts hrest hfuel
  rw [List.length_cons] at hfuel
  obtain ⟨fuel, rfl⟩ : ∃ k, fuel = k + 1 := ⟨fuel - 1, by omega⟩
  obtain ⟨e', he', hread⟩ := h ts rest fuel hts hrest (by rw [List.length_cons]; omega)
  refine ⟨e', he', ?_⟩
  obtain ⟨t, us, rfl, ht, -⟩ := lexemes_eq_cons hts
  rw [List.cons_append] at hread ⊢
  rw [Script.unary, unaryOp?_of_kind (kind_of_lexeme ht ▸ hl)]
  exact hread

/-- A token that is an operand by itself. -/
theorem readsPrimary_single {l : Lexeme} {e : Expr}
    (h : ∀ t rest fuel, t.lexeme = l → nextKind rest ≠ .leftParen →
      ∃ e', e'.strip = e ∧ primary (fuel + 1) (t :: rest) = .ok (e', rest)) :
    ReadsPrimary [l] e := by
  intro ts rest fuel hts hrest hfuel
  obtain ⟨t, rfl, ht⟩ := lexemes_eq_singleton hts
  obtain ⟨fuel, rfl⟩ : ∃ k, fuel = k + 1 := ⟨fuel - 1, by rw [List.length_singleton] at hfuel; omega⟩
  exact h t rest fuel ht hrest

theorem readsPrimary_number {text : String} {x : Float} (hx : Number.float? text = some x) :
    ReadsPrimary [⟨.number, text⟩] (.number .start x) := by
  refine readsPrimary_single fun t rest fuel ht _ => ⟨.number t.pos x, rfl, ?_⟩
  obtain ⟨kind, word, pos⟩ := t
  obtain ⟨rfl, rfl⟩ := Lexeme.mk.inj ht
  rw [primary.eq_def]
  dsimp only
  rw [hx]

theorem readsPrimary_string (text : String) :
    ReadsPrimary [⟨.string, text⟩] (.string .start text) := by
  refine readsPrimary_single fun t rest fuel ht _ => ⟨.string t.pos text, rfl, ?_⟩
  obtain ⟨kind, word, pos⟩ := t
  obtain ⟨rfl, rfl⟩ := Lexeme.mk.inj ht
  rw [primary.eq_def]

theorem readsPrimary_keyword {text : String} {e : Expr}
    (h : keywordLiteral? ⟨.keyword, text, .start⟩ = some e) :
    ReadsPrimary [.keyword text] e := by
  refine readsPrimary_single fun t rest fuel ht _ => ?_
  obtain ⟨e', he', hstrip⟩ := keywordLiteral?_strip ht h
  refine ⟨e', hstrip, ?_⟩
  obtain ⟨kind, word, pos⟩ := t
  obtain ⟨rfl, rfl⟩ := Lexeme.mk.inj ht
  rw [primary.eq_def]
  dsimp only
  rw [he']

theorem readsPrimary_var (name : String) : ReadsPrimary [.name name] (.var .start name) := by
  refine readsPrimary_single fun t rest fuel ht hrest => ⟨.var t.pos name, rfl, ?_⟩
  obtain ⟨kind, word, pos⟩ := t
  obtain ⟨rfl, rfl⟩ := Lexeme.mk.inj ht
  rw [primary.eq_def]
  dsimp only
  split
  · exact absurd rfl hrest
  · rfl

theorem readsPrimary_group {w : List Lexeme} {e : Expr} (h : ReadsExpr w e) :
    ReadsPrimary (.leftParen :: (w ++ [.rightParen])) e := by
  intro ts rest fuel hts _ hfuel
  rw [List.length_cons, List.length_append, List.length_singleton] at hfuel
  obtain ⟨fuel, rfl⟩ : ∃ k, fuel = k + 1 := ⟨fuel - 1, by omega⟩
  obtain ⟨open', us, rfl, hopen, hus⟩ := lexemes_eq_cons hts
  obtain ⟨vs, last, rfl, hvs, hlast⟩ := lexemes_eq_append hus
  obtain ⟨close, rfl, hclose⟩ := lexemes_eq_singleton hlast
  have hends : Ends (close :: rest) :=
    ends_of_kind (kind_of_lexeme hclose) (by decide) (by decide) (by decide)
  obtain ⟨e', he', hread⟩ := h vs (close :: rest) fuel hvs hends (by omega)
  refine ⟨e', he', ?_⟩
  have hkind : open'.kind = .leftParen := kind_of_lexeme hopen
  have hexpect : expect .rightParen .groupEnd (close :: rest) = .ok rest :=
    if_pos (kind_of_lexeme hclose)
  rw [List.cons_append, primary.eq_def, List.append_assoc]
  dsimp only
  rw [hkind]
  dsimp only
  rw [List.singleton_append, hread]
  dsimp only [bind, Except.bind]
  rw [hexpect]
  rfl

/-! ## Calls -/

theorem moreArguments_reads {parts : List (List Lexeme × Expr)} (hne : parts ≠ [])
    (h : ∀ part ∈ parts, ReadsExpr part.1 part.2) {ts rest : List Token} {close : Token} {fuel : Nat}
    (hts : lexemes ts = separated (parts.map (·.1))) (hclose : close.kind = .rightParen)
    (hfuel : 4 * ts.length + 1 ≤ fuel) :
    ∃ es, stripAll es = parts.map (·.2) ∧
      moreArguments fuel (ts ++ close :: rest) = .ok (es, rest) := by
  induction parts generalizing ts fuel with
  | nil => exact absurd rfl hne
  | cons part parts ih =>
    obtain ⟨fuel, rfl⟩ : ∃ k, fuel = k + 1 := ⟨fuel - 1, by omega⟩
    obtain ⟨w, e₀⟩ := part
    have hpart : ReadsExpr w e₀ := h (w, e₀) List.mem_cons_self
    cases parts with
    | nil =>
      have hw : lexemes ts = w := hts
      have hends : Ends (close :: rest) := ends_of_kind hclose (by decide) (by decide) (by decide)
      have hlen := lexemes_length ts
      rw [hw] at hlen
      obtain ⟨e, rfl, hread⟩ := hpart ts (close :: rest) fuel hw hends (by omega)
      refine ⟨[e], rfl, ?_⟩
      have hcomma : ¬ nextKind (close :: rest) = .comma := by rw [nextKind, hclose]; decide
      have hexpect : expect .rightParen .argumentsEnd (close :: rest) = .ok rest := if_pos hclose
      rw [moreArguments, hread]
      dsimp only [bind, Except.bind]
      rw [if_neg hcomma, hexpect]
      rfl
    | cons next parts =>
      obtain ⟨us, vs, rfl, hus, hvs⟩ := lexemes_eq_append hts
      obtain ⟨comma, vs, rfl, hcomma, hvs⟩ := lexemes_eq_cons hvs
      have hus : lexemes us = w := hus
      rw [List.length_append, List.length_cons] at hfuel
      have hkind : comma.kind = .comma := kind_of_lexeme hcomma
      have hends : Ends (comma :: (vs ++ close :: rest)) :=
        ends_of_kind hkind (by decide) (by decide) (by decide)
      have hlen := lexemes_length us
      rw [hus] at hlen
      obtain ⟨e, rfl, hread⟩ := hpart us _ fuel hus hends (by omega)
      obtain ⟨es, hes, hmore⟩ : ∃ es, stripAll es = (next :: parts).map (·.2) ∧
          moreArguments fuel (vs ++ close :: rest) = .ok (es, rest) :=
        ih (List.cons_ne_nil _ _) (fun part hmem => h part (List.mem_cons_of_mem _ hmem)) hvs
          (by omega)
      refine ⟨e :: es, by rw [stripAll, hes]; rfl, ?_⟩
      rw [List.append_assoc, List.cons_append, moreArguments, hread]
      dsimp only [bind, Except.bind]
      rw [nextKind, if_pos hkind, List.tail_cons, hmore]
      rfl

theorem arguments_reads {parts : List (List Lexeme × Expr)}
    (hstart : ∀ part ∈ parts, ∃ l v, part.1 = l :: v ∧ l.startsExpr = true)
    (h : ∀ part ∈ parts, ReadsExpr part.1 part.2) {ts rest : List Token} {close : Token} {fuel : Nat}
    (hts : lexemes ts = separated (parts.map (·.1))) (hclose : close.kind = .rightParen)
    (hfuel : 4 * ts.length + 2 ≤ fuel) :
    ∃ es, stripAll es = parts.map (·.2) ∧
      arguments fuel (ts ++ close :: rest) = .ok (es, rest) := by
  obtain ⟨fuel, rfl⟩ : ∃ k, fuel = k + 1 := ⟨fuel - 1, by omega⟩
  rw [arguments]
  cases parts with
  | nil =>
    obtain rfl := List.map_eq_nil_iff.1 hts
    exact ⟨[], rfl, if_pos hclose⟩
  | cons part parts =>
    have hkind : ¬ nextKind (ts ++ close :: rest) = .rightParen := by
      obtain ⟨l, v, hl, hstarts⟩ := hstart part List.mem_cons_self
      obtain ⟨u, hu⟩ : ∃ u, separated ((part :: parts).map (·.1)) = l :: u := by
        rw [List.map_cons, hl]
        cases parts.map (·.1) <;> exact ⟨_, rfl⟩
      obtain ⟨t, us, rfl, ht, -⟩ := lexemes_eq_cons (hts.trans hu)
      intro hright
      rw [List.cons_append, nextKind, kind_of_lexeme ht] at hright
      rw [Lexeme.startsExpr, hright] at hstarts
      cases hstarts
    rw [if_neg hkind]
    exact moreArguments_reads (List.cons_ne_nil _ _) h hts hclose (by omega)

theorem readsPrimary_call {callee : String} {parts : List (List Lexeme × Expr)}
    (hstart : ∀ part ∈ parts, ∃ l v, part.1 = l :: v ∧ l.startsExpr = true)
    (h : ∀ part ∈ parts, ReadsExpr part.1 part.2) :
    ReadsPrimary (.name callee :: .leftParen :: (separated (parts.map (·.1)) ++ [.rightParen]))
      (.call .start callee (parts.map (·.2))) := by
  intro ts rest fuel hts _ hfuel
  rw [List.length_cons, List.length_cons, List.length_append, List.length_singleton] at hfuel
  obtain ⟨fuel, rfl⟩ : ∃ k, fuel = k + 1 := ⟨fuel - 1, by omega⟩
  obtain ⟨⟨kind, word, pos⟩, us, rfl, hname, hus⟩ := lexemes_eq_cons hts
  obtain ⟨⟨kind', word', pos'⟩, us, rfl, hopen, hus⟩ := lexemes_eq_cons hus
  obtain ⟨vs, last, rfl, hvs, hlast⟩ := lexemes_eq_append hus
  obtain ⟨close, rfl, hclose⟩ := lexemes_eq_singleton hlast
  obtain ⟨rfl, rfl⟩ := Lexeme.mk.inj hname
  obtain ⟨rfl, rfl⟩ := Lexeme.mk.inj hopen
  have hlen := lexemes_length vs
  rw [hvs] at hlen
  obtain ⟨es, hes, hread⟩ : ∃ es, stripAll es = parts.map (·.2) ∧
      arguments fuel (vs ++ close :: rest) = .ok (es, rest) :=
    arguments_reads hstart h hvs (kind_of_lexeme hclose) (by omega)
  refine ⟨.call pos word es, by rw [Expr.strip, hes], ?_⟩
  rw [List.cons_append, List.cons_append, List.append_assoc, List.singleton_append, primary.eq_def]
  dsimp only
  rw [hread]
  rfl

/-! ## Operators -/

theorem readsUnary_unary (op : UnaryOp) {w : List Lexeme} {e : Expr} (h : ReadsUnary w e) :
    ReadsUnary (.operator op.symbol :: w) (.unary .start op e) := by
  intro ts rest fuel hts hrest hfuel
  rw [List.length_cons] at hfuel
  obtain ⟨fuel, rfl⟩ : ∃ k, fuel = k + 1 := ⟨fuel - 1, by omega⟩
  obtain ⟨t, us, rfl, ht, hus⟩ := lexemes_eq_cons hts
  obtain ⟨e', rfl, hread⟩ := h us rest fuel hus hrest (by omega)
  refine ⟨.unary t.pos op e', rfl, ?_⟩
  rw [List.cons_append, unary, unaryOp?_operator op ht]
  dsimp only
  rw [hread]
  rfl

/-- The left operand is read up to the operator, and the loop over operators takes the right one. -/
theorem readsBinary_binary (op : BinaryOp) {v w : List Lexeme} {a b : Expr} (hv : v ≠ [])
    (ha : ReadsBinary op.precedence v a) (hb : ReadsBinary (op.precedence + 1) w b) (hw : w ≠ []) :
    ReadsBinary op.precedence (v ++ .operator op.symbol :: w) (.binary .start op a b) := by
  intro q ts rest fuel hq hle hts hrest hfuel
  rw [List.length_append, List.length_cons] at hfuel ⊢
  have hvpos := List.length_pos_iff.2 hv
  have hwpos := List.length_pos_iff.2 hw
  obtain ⟨us, vs, rfl, hus, hvs⟩ := lexemes_eq_append hts
  obtain ⟨t, vs, rfl, ht, hvs⟩ := lexemes_eq_cons hvs
  have hop : binaryOp? t = some op := binaryOp?_operator op ht
  have hfollows : Follows op.precedence (t :: (vs ++ rest)) := by
    refine ⟨?_, fun u op' hu hop' => ?_⟩
    · rw [nextKind, kind_of_lexeme ht]
      exact TokenKind.noConfusion
    · cases hu
      rw [hop] at hop'
      cases hop'
      exact Nat.le_refl _
  obtain ⟨a', fuel₁, rfl, hfuel₁, hreadA⟩ := ha q us _ fuel hq hle hus hfollows (by omega)
  obtain ⟨fuel₁, rfl⟩ : ∃ k, fuel₁ = k + 1 := ⟨fuel₁ - 1, by omega⟩
  obtain ⟨b', fuel₂, rfl, hfuel₂, hreadB⟩ :=
    hb (op.precedence + 1) vs rest fuel₁ (Nat.succ_pos _) (Nat.le_refl _) hvs
      (hrest.mono (Nat.le_succ _)) (by omega)
  have hstop : operators fuel₂ (op.precedence + 1) b' rest = .ok (b', rest) :=
    operators_stop (by omega) fun u op' hu hop' => Nat.lt_succ_of_le (hrest.looser u op' hu hop')
  refine ⟨.binary t.pos op a' b', fuel₁, rfl, by omega, ?_⟩
  rw [List.append_assoc, List.cons_append, hreadA, operators.eq_def]
  dsimp only
  rw [hop]
  dsimp only
  rw [if_neg (Nat.not_lt.2 hle), hreadB, hstop]
  rfl

theorem readsExpr_conditional {u v w : List Lexeme} {test yes no : Expr} (hu : u ≠ [])
    (ht : ReadsBinary 1 u test) (hy : ReadsExpr v yes) (hn : ReadsExpr w no) :
    ReadsExpr (u ++ .question :: (v ++ .colon :: w)) (.conditional .start test yes no) := by
  intro ts rest fuel hts hrest hfuel
  simp only [List.length_append, List.length_cons] at hfuel
  have hpos := List.length_pos_iff.2 hu
  obtain ⟨fuel, rfl⟩ : ∃ k, fuel = k + 1 := ⟨fuel - 1, by omega⟩
  obtain ⟨us, more, rfl, hus, hmore⟩ := lexemes_eq_append hts
  obtain ⟨⟨kind, text, pos⟩, more, rfl, hquestion, hmore⟩ := lexemes_eq_cons hmore
  obtain ⟨vs, more, rfl, hvs, hmore⟩ := lexemes_eq_append hmore
  obtain ⟨colon, ws, rfl, hcolon, hws⟩ := lexemes_eq_cons hmore
  obtain rfl : kind = .question := kind_of_lexeme hquestion
  have hfollows : Follows 1 (⟨.question, text, pos⟩ :: (vs ++ (colon :: ws ++ rest))) := by
    refine ⟨TokenKind.noConfusion, fun t op ht hop => ?_⟩
    cases ht
    cases hop
  obtain ⟨test', fuel₁, rfl, hfuel₁, hreadT⟩ :=
    ht 1 us _ fuel (Nat.le_refl 1) (Nat.le_refl 1) hus hfollows (by omega)
  have hstop : operators fuel₁ 1 test' (⟨.question, text, pos⟩ :: (vs ++ (colon :: ws ++ rest))) =
      .ok (test', ⟨.question, text, pos⟩ :: (vs ++ (colon :: ws ++ rest))) := by
    refine operators_stop (by omega) fun t op ht hop => ?_
    cases ht
    cases hop
  have hends : Ends (colon :: ws ++ rest) :=
    ends_of_kind (kind_of_lexeme hcolon) (by decide) (by decide) (by decide)
  obtain ⟨yes', rfl, hreadY⟩ := hy vs _ fuel hvs hends (by omega)
  obtain ⟨no', rfl, hreadN⟩ := hn ws rest fuel hws hrest (by omega)
  have hexpect : expect .colon .conditionalColon (colon :: ws ++ rest) = .ok (ws ++ rest) :=
    if_pos (kind_of_lexeme hcolon)
  refine ⟨.conditional pos test' yes' no', rfl, ?_⟩
  rw [List.append_assoc, List.cons_append, List.append_assoc, expression, hreadT, hstop]
  dsimp only [bind, Except.bind]
  rw [hreadY]
  dsimp only
  rw [hexpect]
  dsimp only
  rw [hreadN]
  rfl

/-! ## Expressions -/

theorem ReadsPrimary.reads {l : Lexeme} {w : List Lexeme} {e : Expr} (h : ReadsPrimary (l :: w) e)
    (hl : l.kind ≠ .operator) (p : Nat) :
    ReadsExpr (l :: w) e ∧ ReadsBinary p (l :: w) e ∧ ReadsUnary (l :: w) e := by
  have hunary := h.unary hl
  have hbinary := hunary.binary (List.cons_ne_nil l w)
  exact ⟨(hbinary 1).expr (Nat.le_refl 1) (List.cons_ne_nil l w), hbinary p, hunary⟩

/-- **The parser reads what is spelt**, at every level that binds loosely enough. -/
theorem Spells.reads {p : Nat} {w : List Lexeme} {e : Expr} (h : Spells p w e) :
    ReadsExpr w e ∧ (1 ≤ p → ReadsBinary p w e) ∧ (operandLevel ≤ p → ReadsUnary w e) := by
  induction h with
  | @number p text x h =>
    obtain ⟨hexpr, hbinary, hunary⟩ := (readsPrimary_number h).reads nofun p
    exact ⟨hexpr, fun _ => hbinary, fun _ => hunary⟩
  | @string p text =>
    obtain ⟨hexpr, hbinary, hunary⟩ := (readsPrimary_string text).reads nofun p
    exact ⟨hexpr, fun _ => hbinary, fun _ => hunary⟩
  | @keyword p text e h =>
    obtain ⟨hexpr, hbinary, hunary⟩ := (readsPrimary_keyword h).reads nofun p
    exact ⟨hexpr, fun _ => hbinary, fun _ => hunary⟩
  | @var p name =>
    obtain ⟨hexpr, hbinary, hunary⟩ := (readsPrimary_var name).reads nofun p
    exact ⟨hexpr, fun _ => hbinary, fun _ => hunary⟩
  | @call p callee parts h ih =>
    obtain ⟨hexpr, hbinary, hunary⟩ :=
      (readsPrimary_call (fun part hmem => (h part hmem).starts)
        fun part hmem => (ih part hmem).1).reads nofun p
    exact ⟨hexpr, fun _ => hbinary, fun _ => hunary⟩
  | @group p w e h ih =>
    obtain ⟨hexpr, hbinary, hunary⟩ := (readsPrimary_group ih.1).reads nofun p
    exact ⟨hexpr, fun _ => hbinary, fun _ => hunary⟩
  | @unary p op w e hp h ih =>
    have hunary := readsUnary_unary op (ih.2.2 (Nat.le_refl _))
    have hbinary := hunary.binary (List.cons_ne_nil _ _)
    exact ⟨(hbinary 1).expr (Nat.le_refl 1) (List.cons_ne_nil _ _), fun _ => hbinary p,
      fun _ => hunary⟩
  | @binary p op v w a b hp ha hb iha ihb =>
    have hprec : 1 ≤ op.precedence := by cases op <;> decide
    have hbinary := readsBinary_binary op ha.ne_nil (iha.2.1 hprec) (ihb.2.1 (Nat.succ_pos _))
      hb.ne_nil
    have hne : v ++ .operator op.symbol :: w ≠ [] :=
      List.append_ne_nil_of_left_ne_nil ha.ne_nil _
    refine ⟨hbinary.expr hprec hne, fun _ => ?_, fun hlevel => ?_⟩
    · intro q ts rest fuel hq hle hts hrest hfuel
      exact hbinary q ts rest fuel hq (Nat.le_trans hle hp) hts (hrest.mono hp) hfuel
    · have hop : op.precedence < operandLevel := by cases op <;> decide
      exact absurd (Nat.le_trans hlevel hp) (Nat.not_le.2 hop)
  | conditional ht hy hn iht ihy ihn =>
    refine ⟨readsExpr_conditional ht.ne_nil (iht.2.1 (Nat.le_refl 1)) ihy.1 ihn.1, ?_, ?_⟩
    · exact fun h => absurd h (by decide)
    · exact fun h => absurd h (by decide)

theorem closed_closing (ts : List Token) (pos : Position) :
    closed (ts ++ [Token.closing pos]) = ts ++ [Token.closing pos] := by
  rw [closed, List.getLast?_concat]
  exact if_pos rfl

/-- **What spells an expression is parsed as that expression**, to the end of the input. -/
theorem parseExpression_of_spells {w : List Lexeme} {e : Expr} (h : Spells 0 w e) {ts : List Token}
    (hts : lexemes ts = w) (pos : Position) :
    ∃ e', e'.strip = e ∧
      parseExpression (ts ++ [Token.closing pos]) = .ok (e', [Token.closing pos]) := by
  have hends : Ends [Token.closing pos] :=
    @ends_of_kind .endOfInput _ rfl (by decide) (by decide) (by decide)
  have hlen := lexemes_length ts
  have hfuel : 4 * w.length ≤ fuelFor (ts ++ [Token.closing pos]) := by
    rw [fuelFor, List.length_append, ← hts, hlen]
    omega
  obtain ⟨e', he', hread⟩ := h.reads.1 ts _ _ hts hends hfuel
  refine ⟨e', he', ?_⟩
  rw [parseExpression, closed_closing, hread]

end Script
end VisualBlocks

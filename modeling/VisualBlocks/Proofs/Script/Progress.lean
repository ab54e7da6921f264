import VisualBlocks.Proofs.Script.Locations
import VisualBlocks.Proofs.Script.StatementReading

/-!
# The parser makes progress

A list of tokens that ends with one that closes the input is a supply that the parser cannot
exhaust: no function takes that last token, and each one that succeeds has taken another.  So the
depth of the calls is bounded by the number of tokens, and the fuel that stands for it never runs
out.

This is said by comparing two runs of a function (`Proceeds`): one with any fuel on the tokens that
remain, and one with enough fuel on the same tokens and others behind them.  They have the same
outcome, so what stands behind the last token is never looked at and more fuel changes nothing; what
is left is a shorter supply; an error is never that of missing fuel, and it stands where one of the
tokens does.  Only where `short` says that the first run may have too little fuel can it end for
that reason.

* `Concur.bind` carries the comparison through calls one after the other.
* `ExpressionProgress` holds what is assumed of the calls one level down; there is one lemma for
  each function that reads expressions, which derives it one level up.
* What is read points to places where tokens stand (`Expr.Within`).

How statements are read is in `Termination`.
-/

set_option autoImplicit false

namespace VisualBlocks
namespace Script

variable {S : Position → Prop} {short : Prop} {extra ts : List Token} {α β : Type}

/-! ## Supplies -/

/-- Tokens that end with one that closes the input, all at positions in `S`. -/
structure Supply (S : Position → Prop) (ts : List Token) : Prop where
  ends : ∃ t ∈ ts.getLast?, t.kind = .endOfInput
  pos : ∀ t ∈ ts, S t.pos

namespace Supply

theorem exists_cons (h : Supply S ts) : ∃ t rest, ts = t :: rest := by
  obtain ⟨t, ht, -⟩ := h.ends
  cases ts with
  | nil => cases ht
  | cons t rest => exact ⟨t, rest, rfl⟩

theorem length_pos (h : Supply S ts) : 0 < ts.length := by
  obtain ⟨t, rest, rfl⟩ := h.exists_cons
  exact Nat.succ_pos _

theorem head {t : Token} {rest : List Token} (h : Supply S (t :: rest)) : S t.pos :=
  h.pos t List.mem_cons_self

/-- A token that does not close the input is not the last one. -/
theorem tail {t : Token} {rest : List Token} (h : Supply S (t :: rest))
    (ht : t.kind ≠ .endOfInput) : Supply S rest where
  ends := by
    obtain ⟨last, hlast, hkind⟩ := h.ends
    cases rest with
    | nil =>
      cases hlast
      exact absurd hkind ht
    | cons u us => exact ⟨last, by simpa using hlast, hkind⟩
  pos u hu := h.pos u (List.mem_cons_of_mem t hu)

end Supply

/-- What is left of `ts` when at least `n` tokens have been taken, but not the last one. -/
structure Leaves (S : Position → Prop) (n : Nat) (ts rest : List Token) : Prop where
  supply : Supply S rest
  suffix : rest <:+ ts
  length : rest.length + n ≤ ts.length

namespace Leaves

variable {m n : Nat} {mid rest : List Token}

theorem refl (h : Supply S ts) : Leaves S 0 ts ts := ⟨h, List.suffix_rfl, Nat.le_refl _⟩

theorem tail {t : Token} (h : Supply S (t :: rest)) (ht : t.kind ≠ .endOfInput) :
    Leaves S 1 (t :: rest) rest :=
  ⟨h.tail ht, List.suffix_cons t rest, Nat.le_refl _⟩

theorem trans (h : Leaves S m ts mid) (h' : Leaves S n mid rest) : Leaves S (m + n) ts rest where
  supply := h'.supply
  suffix := h'.suffix.trans h.suffix
  length := by
    have := h.length
    have := h'.length
    omega

theorem mono (h : Leaves S n ts rest) (hmn : m ≤ n) : Leaves S m ts rest where
  supply := h.supply
  suffix := h.suffix
  length := by
    have := h.length
    omega

end Leaves

/-! ## Fuel -/

/-- Both amounts of fuel are at least `n`, the first one unless it may be short. -/
def Enough (short : Prop) (fuel fuel' n : Nat) : Prop := (¬ short → n ≤ fuel) ∧ n ≤ fuel'

theorem Enough.of {fuel fuel' gas gas' m n : Nat} (h : Enough short gas gas' m)
    (hle : gas + n ≤ fuel + m) (hle' : gas' + n ≤ fuel' + m) : Enough short fuel fuel' n := by
  refine ⟨fun hs => ?_, ?_⟩
  · have := h.1 hs
    omega
  · have := h.2
    omega

/-- Only an amount that may be short can be too small. -/
theorem Enough.isShort {fuel fuel' n : Nat} (h : Enough short fuel fuel' n) (hn : fuel < n) :
    short :=
  Classical.byContradiction fun hs => by
    have := h.1 hs
    omega

theorem Enough.exists_succ {fuel fuel' n : Nat} (c : Nat) (h : Enough short fuel (fuel' + c) n)
    (hn : c < n) : ∃ k, fuel' = k + 1 := by
  have := h.2
  exact Nat.exists_eq_add_one.2 (by omega)

/-! ## Two runs -/

/-- Two runs have the same outcome: results that `R` relates, or one error, which is not that of
missing fuel and stands at a position in `S`.  If it may be short of fuel the first one may also end
for that. -/
inductive Concur (S : Position → Prop) (short : Prop) (R : α → α → Prop) :
    Except ParseError α → Except ParseError α → Prop where
  | ok {a b : α} (h : R a b) : Concur S short R (.ok a) (.ok b)
  | error {e : ParseError} (hfault : e.fault ≠ .exhausted) (hpos : S e.pos) :
      Concur S short R (.error e) (.error e)
  | exhausted {pos : Position} {x : Except ParseError α} (h : short) :
      Concur S short R (.error ⟨.exhausted, pos⟩) x

namespace Concur

variable {R : α → α → Prop} {Q : β → β → Prop} {x y : Except ParseError α}

/-- One run after the other. -/
theorem bind {f g : α → Except ParseError β} (h : Concur S short R x y)
    (next : ∀ a b, R a b → Concur S short Q (f a) (g b)) :
    Concur S short Q (x >>= f) (y >>= g) := by
  cases h with
  | ok h => exact next _ _ h
  | error hfault hpos => exact .error hfault hpos
  | exhausted h => exact .exhausted h

theorem map {f g : α → β} (h : Concur S short R x y) (next : ∀ a b, R a b → Q (f a) (g b)) :
    Concur S short Q (x.map f) (y.map g) := by
  cases h with
  | ok h => exact .ok (next _ _ h)
  | error hfault hpos => exact .error hfault hpos
  | exhausted h => exact .exhausted h

theorem mono {R' : α → α → Prop} (h : Concur S short R x y) (himp : ∀ a b, R a b → R' a b) :
    Concur S short R' x y := by
  cases h with
  | ok h => exact .ok (himp _ _ h)
  | error hfault hpos => exact .error hfault hpos
  | exhausted h => exact .exhausted h

theorem failAt {t : Token} {rest rest' : List Token} {fault : ParseFault} (ht : S t.pos)
    (hfault : fault ≠ .exhausted) :
    Concur S short R (Script.failAt (t :: rest) fault) (Script.failAt (t :: rest') fault) :=
  .error hfault ht

/-- Both runs take the same branch. -/
theorem ite {c : Prop} [Decidable c] {x' y' : Except ParseError α}
    (hyes : c → Concur S short R x y) (hno : ¬ c → Concur S short R x' y') :
    Concur S short R (if c then x else x') (if c then y else y') := by
  by_cases hc : c
  · rw [if_pos hc, if_pos hc]
    exact hyes hc
  · rw [if_neg hc, if_neg hc]
    exact hno hc

end Concur

/-- Tokens are taken from `ts` and nothing is read off them. -/
def Skips (S : Position → Prop) (short : Prop) (extra : List Token) (n : Nat) (ts : List Token) :
    Except ParseError (List Token) → Except ParseError (List Token) → Prop :=
  Concur S short fun rest rest' => rest' = rest ++ extra ∧ Leaves S n ts rest

/-- Tokens are taken from `ts` and something `good` is read off them. -/
def Proceeds (S : Position → Prop) (short : Prop) (extra : List Token) (good : α → Prop) (n : Nat)
    (ts : List Token) :
    Except ParseError (α × List Token) → Except ParseError (α × List Token) → Prop :=
  Concur S short fun r r' => r' = (r.1, r.2 ++ extra) ∧ good r.1 ∧ Leaves S n ts r.2

/-- The branches after the first one are taken from `ts`. -/
def Branching (S : Position → Prop) (short : Prop) (extra : List Token) (ts : List Token) :
    Except ParseError (List (Expr × List Statement) × List Statement × List Token) →
      Except ParseError (List (Expr × List Statement) × List Statement × List Token) → Prop :=
  Concur S short fun r r' => r' = (r.1, r.2.1, r.2.2 ++ extra) ∧ BranchesWithin S r.1 r.2.1 ∧
    Leaves S 0 ts r.2.2

theorem Skips.bind {n : Nat} {R : β → β → Prop} {x y : Except ParseError (List Token)}
    {f g : List Token → Except ParseError β} (h : Skips S short extra n ts x y)
    (next : ∀ rest, Leaves S n ts rest → Concur S short R (f rest) (g (rest ++ extra))) :
    Concur S short R (x >>= f) (y >>= g) :=
  Concur.bind h fun rest _ hr => hr.1 ▸ next rest hr.2

namespace Branching

variable {n : Nat}

theorem bind {R : β → β → Prop}
    {x y : Except ParseError (List (Expr × List Statement) × List Statement × List Token)}
    {f g : List (Expr × List Statement) × List Statement × List Token → Except ParseError β}
    (h : Branching S short extra ts x y)
    (next : ∀ branches otherwise rest, BranchesWithin S branches otherwise → Leaves S 0 ts rest →
      Concur S short R (f (branches, otherwise, rest)) (g (branches, otherwise, rest ++ extra))) :
    Concur S short R (x >>= f) (y >>= g) :=
  Concur.bind h fun r _ hr => hr.1 ▸ next r.1 r.2.1 r.2.2 hr.2.1 hr.2.2

theorem ok {branches : List (Expr × List Statement)} {otherwise : List Statement}
    {rest : List Token} (hb : BranchesWithin S branches otherwise) (h : Leaves S 0 ts rest) :
    Branching S short extra ts (.ok (branches, otherwise, rest))
      (.ok (branches, otherwise, rest ++ extra)) :=
  Concur.ok (a := (branches, otherwise, rest)) ⟨rfl, hb, h⟩

theorem after {ts' : List Token}
    {x y : Except ParseError (List (Expr × List Statement) × List Statement × List Token)}
    (h : Leaves S n ts' ts) (hb : Branching S short extra ts x y) :
    Branching S short extra ts' x y :=
  Concur.mono hb fun _ _ hr => ⟨hr.1, hr.2.1, (h.trans hr.2.2).mono (Nat.zero_le _)⟩

end Branching

namespace Proceeds

variable {good : α → Prop} {n m : Nat} {x y : Except ParseError (α × List Token)}

theorem bind {R : β → β → Prop} {f g : α × List Token → Except ParseError β}
    (h : Proceeds S short extra good n ts x y)
    (next : ∀ a rest, good a → Leaves S n ts rest →
      Concur S short R (f (a, rest)) (g (a, rest ++ extra))) :
    Concur S short R (x >>= f) (y >>= g) :=
  Concur.bind h fun r _ hr => hr.1 ▸ next r.1 r.2 hr.2.1 hr.2.2

theorem ok {a : α} {rest : List Token} (ha : good a) (h : Leaves S n ts rest) :
    Proceeds S short extra good n ts (.ok (a, rest)) (.ok (a, rest ++ extra)) :=
  Concur.ok (a := (a, rest)) ⟨rfl, ha, h⟩

theorem mono (h : Proceeds S short extra good n ts x y) (hmn : m ≤ n) :
    Proceeds S short extra good m ts x y :=
  Concur.mono h fun _ _ hr => ⟨hr.1, hr.2.1, hr.2.2.mono hmn⟩

/-- What a run makes of the rest after some tokens it makes of the whole. -/
theorem after {ts' : List Token} (h : Leaves S m ts' ts)
    (hp : Proceeds S short extra good n ts x y) :
    Proceeds S short extra good (m + n) ts' x y :=
  Concur.mono hp fun _ _ hr => ⟨hr.1, hr.2.1, h.trans hr.2.2⟩

end Proceeds

/-- The token that is asked for is taken. -/
theorem expect_skips {kind : TokenKind} (hkind : kind ≠ .endOfInput) (what : Missing)
    (hts : Supply S ts) :
    Skips S short extra 1 ts (expect kind what ts) (expect kind what (ts ++ extra)) := by
  obtain ⟨t, rest, rfl⟩ := hts.exists_cons
  rw [List.cons_append, expect, expect]
  by_cases ht : t.kind = kind
  · rw [if_pos ht, if_pos ht]
    exact .ok ⟨rfl, .tail hts (ht ▸ hkind)⟩
  · rw [if_neg ht, if_neg ht]
    exact .failAt hts.head (by simp)

/-! ## Expressions -/

/-- What is assumed of the calls that expressions are read by, the first ones with `fuel`. -/
structure ExpressionProgress (S : Position → Prop) (short : Prop) (extra : List Token)
    (fuel : Nat) : Prop where
  expression : ∀ {fuel' ts}, Supply S ts → Enough short fuel fuel' (4 * ts.length) →
    Proceeds S short extra (Expr.Within S) 1 ts
      (expression fuel ts) (expression fuel' (ts ++ extra))
  binary : ∀ {fuel' least ts}, Supply S ts →
    Enough short (fuel + 1) (fuel' + 1) (4 * ts.length) →
    Proceeds S short extra (Expr.Within S) 1 ts
      (binary fuel least ts) (binary fuel' least (ts ++ extra))
  operators : ∀ {fuel' least left ts}, Supply S ts →
    Enough short (fuel + 3) (fuel' + 3) (4 * ts.length) → left.Within S →
    Proceeds S short extra (Expr.Within S) 0 ts
      (operators fuel least left ts) (operators fuel' least left (ts ++ extra))
  unary : ∀ {fuel' ts}, Supply S ts → Enough short (fuel + 2) (fuel' + 2) (4 * ts.length) →
    Proceeds S short extra (Expr.Within S) 1 ts (unary fuel ts) (unary fuel' (ts ++ extra))
  primary : ∀ {fuel' ts}, Supply S ts → Enough short (fuel + 3) (fuel' + 3) (4 * ts.length) →
    Proceeds S short extra (Expr.Within S) 1 ts (primary fuel ts) (primary fuel' (ts ++ extra))
  arguments : ∀ {fuel' ts}, Supply S ts → Enough short fuel fuel' (4 * ts.length + 2) →
    Proceeds S short extra (ArgsWithin S) 1 ts (arguments fuel ts) (arguments fuel' (ts ++ extra))
  moreArguments : ∀ {fuel' ts}, Supply S ts → Enough short fuel fuel' (4 * ts.length + 1) →
    Proceeds S short extra (ArgsWithin S) 1 ts
      (moreArguments fuel ts) (moreArguments fuel' (ts ++ extra))

/-- The conditional is read when the next token is its mark. -/
theorem expression_succ (fuel : Nat) (ts : List Token) :
    expression (fuel + 1) ts = do
      let (test, ts) ← binary fuel 1 ts
      if nextKind ts = .question then
        let (yes, rest) ← expression fuel ts.tail
        let rest ← expect .colon .conditionalColon rest
        let (no, rest) ← expression fuel rest
        return (.conditional (nextPos ts) test yes no, rest)
      else return (test, ts) := by
  rw [expression]
  congr 1
  funext r
  obtain ⟨test, _ | ⟨⟨kind, text, pos⟩, rest⟩⟩ := r
  · rfl
  · cases kind <;> rfl

/-- A name is called when the next token opens a parenthesis. -/
theorem primary_name (fuel : Nat) {t : Token} (ht : t.kind = .name) (rest : List Token) :
    primary (fuel + 1) (t :: rest) =
      if nextKind rest = .leftParen then do
        let (args, rest) ← arguments fuel rest.tail
        return (.call t.pos t.text args, rest)
      else .ok (.var t.pos t.text, rest) := by
  simp only [primary, ht]
  obtain _ | ⟨⟨kind, text, pos⟩, more⟩ := rest
  · rfl
  · cases kind <;> rfl

/-- The literal of a keyword stands where the keyword does. -/
theorem within_keyword {t : Token} (ht : S t.pos) {e : Expr} (h : keywordLiteral? t = some e) :
    e.Within S := by
  unfold keywordLiteral? at h
  split_ifs at h <;> cases h
  · exact .bool ht true
  · exact .bool ht false
  · exact .null ht

section Expressions

variable {fuel fuel' : Nat} (ih : ExpressionProgress S short extra fuel)
include ih

theorem expression_progress (hts : Supply S ts)
    (h : Enough short (fuel + 1) (fuel' + 1) (4 * ts.length)) :
    Proceeds S short extra (Expr.Within S) 1 ts
      (expression (fuel + 1) ts) (expression (fuel' + 1) (ts ++ extra)) := by
  rw [expression_succ, expression_succ]
  refine Proceeds.bind (ih.binary hts h) fun test rest htest hl => ?_
  obtain ⟨t, rest, rfl⟩ := hl.supply.exists_cons
  simp only [List.cons_append, nextKind_cons, nextPos_cons, List.tail_cons]
  refine .ite (fun ht => ?_) fun _ => Proceeds.ok htest hl
  have hpos := hl.supply.head
  replace hl := hl.trans (.tail hl.supply (by simp [ht]))
  have hn := hl.length
  refine Proceeds.bind (ih.expression hl.supply (h.of (by omega) (by omega)))
    fun yes rest hyes hr => ?_
  replace hl := hl.trans hr
  refine Skips.bind (expect_skips (by simp) _ hl.supply) fun rest hr => ?_
  replace hl := hl.trans hr
  have hn := hl.length
  refine Proceeds.bind (ih.expression hl.supply (h.of (by omega) (by omega)))
    fun no rest hno hr => ?_
  exact Proceeds.ok (.conditional hpos htest hyes hno) ((hl.trans hr).mono (by omega))

theorem binary_progress {least : Nat} (hts : Supply S ts)
    (h : Enough short (fuel + 1 + 1) (fuel' + 1 + 1) (4 * ts.length)) :
    Proceeds S short extra (Expr.Within S) 1 ts
      (binary (fuel + 1) least ts) (binary (fuel' + 1) least (ts ++ extra)) := by
  rw [binary, binary]
  refine Proceeds.bind (ih.unary hts h) fun left rest hleft hl => ?_
  have hn := hl.length
  exact Proceeds.after hl (ih.operators hl.supply (h.of (by omega) (by omega)) hleft)

theorem operators_progress {least : Nat} {left : Expr} (hts : Supply S ts)
    (h : Enough short (fuel + 1 + 3) (fuel' + 1 + 3) (4 * ts.length)) (hleft : left.Within S) :
    Proceeds S short extra (Expr.Within S) 0 ts
      (operators (fuel + 1) least left ts) (operators (fuel' + 1) least left (ts ++ extra)) := by
  obtain ⟨t, rest, rfl⟩ := hts.exists_cons
  rw [List.cons_append, operators, operators]
  cases hop : binaryOp? t with
  | none => exact Proceeds.ok hleft (.refl hts)
  | some op =>
    refine .ite (fun _ => Proceeds.ok hleft (.refl hts)) fun _ => ?_
    -- An operator does not end the input, so there is a token behind it.
    have ht : t.kind ≠ .endOfInput := fun ht => by
      rw [binaryOp?_of_kind (by simp [ht])] at hop
      cases hop
    have hl := Leaves.tail hts ht
    have hn := hl.length
    refine Proceeds.bind (ih.binary hl.supply (h.of (by omega) (by omega)))
      fun right rest hright hr => ?_
    replace hl := hl.trans hr
    have hn := hl.length
    exact Proceeds.mono (.after hl (ih.operators hl.supply (h.of (by omega) (by omega))
      (.binary hts.head op hleft hright))) (by omega)

theorem unary_progress (hts : Supply S ts)
    (h : Enough short (fuel + 1 + 2) (fuel' + 1 + 2) (4 * ts.length)) :
    Proceeds S short extra (Expr.Within S) 1 ts
      (unary (fuel + 1) ts) (unary (fuel' + 1) (ts ++ extra)) := by
  obtain ⟨t, rest, rfl⟩ := hts.exists_cons
  rw [List.cons_append, unary, unary]
  cases hop : unaryOp? t with
  | none => exact ih.primary hts h
  | some op =>
    have ht : t.kind ≠ .endOfInput := fun ht => by
      rw [unaryOp?_of_kind (by simp [ht])] at hop
      cases hop
    have hl := Leaves.tail hts ht
    have hn := hl.length
    refine Proceeds.bind (ih.unary hl.supply (h.of (by omega) (by omega)))
      fun operand rest hoperand hr => ?_
    exact Proceeds.ok (.unary hts.head op hoperand) ((hl.trans hr).mono (by omega))

theorem primary_progress (hts : Supply S ts)
    (h : Enough short (fuel + 1 + 3) (fuel' + 1 + 3) (4 * ts.length)) :
    Proceeds S short extra (Expr.Within S) 1 ts
      (primary (fuel + 1) ts) (primary (fuel' + 1) (ts ++ extra)) := by
  obtain ⟨t, rest, rfl⟩ := hts.exists_cons
  rw [List.cons_append]
  have hpos := hts.head
  cases ht : t.kind with
  | number =>
    simp only [primary, ht]
    cases Number.float? t.text with
    | none => exact .error (by simp) hpos
    | some x => exact Proceeds.ok (.number hpos x) (.tail hts (by simp [ht]))
  | string =>
    simp only [primary, ht]
    exact Proceeds.ok (.string hpos _) (.tail hts (by simp [ht]))
  | keyword =>
    simp only [primary, ht]
    cases hword : keywordLiteral? t with
    | none => exact .failAt hpos (by simp)
    | some e => exact Proceeds.ok (within_keyword hpos hword) (.tail hts (by simp [ht]))
  | name =>
    rw [primary_name _ ht, primary_name _ ht]
    have hl := Leaves.tail hts (by simp [ht])
    obtain ⟨o, rest, rfl⟩ := hl.supply.exists_cons
    simp only [List.cons_append, nextKind_cons, List.tail_cons]
    refine .ite (fun ho => ?_) fun _ => ?_
    · replace hl := hl.trans (.tail hl.supply (by simp [ho]))
      have hn := hl.length
      refine Proceeds.bind (ih.arguments hl.supply (h.of (by omega) (by omega)))
        fun args rest hargs hr => ?_
      exact Proceeds.ok (.call hpos _ hargs) ((hl.trans hr).mono (by omega))
    · exact Proceeds.ok (.var hpos _) hl
  | leftParen =>
    simp only [primary, ht]
    have hl := Leaves.tail hts (by simp [ht])
    have hn := hl.length
    refine Proceeds.bind (ih.expression hl.supply (h.of (by omega) (by omega)))
      fun e rest he hr => ?_
    replace hl := hl.trans hr
    refine Skips.bind (expect_skips (by simp) _ hl.supply) fun rest hr => ?_
    exact Proceeds.ok he ((hl.trans hr).mono (by omega))
  | endOfInput | operator | rightParen | leftBrace | rightBrace | comma | semicolon | question
  | colon =>
    simp only [primary, ht]
    exact .failAt hpos (by simp)

theorem arguments_progress (hts : Supply S ts)
    (h : Enough short (fuel + 1) (fuel' + 1) (4 * ts.length + 2)) :
    Proceeds S short extra (ArgsWithin S) 1 ts
      (arguments (fuel + 1) ts) (arguments (fuel' + 1) (ts ++ extra)) := by
  rw [arguments, arguments]
  obtain ⟨t, rest, rfl⟩ := hts.exists_cons
  simp only [List.cons_append, nextKind_cons, List.tail_cons]
  refine .ite (fun ht => Proceeds.ok .nil (.tail hts (by simp [ht]))) fun _ => ?_
  exact ih.moreArguments hts (h.of (by omega) (by omega))

theorem moreArguments_progress (hts : Supply S ts)
    (h : Enough short (fuel + 1) (fuel' + 1) (4 * ts.length + 1)) :
    Proceeds S short extra (ArgsWithin S) 1 ts
      (moreArguments (fuel + 1) ts) (moreArguments (fuel' + 1) (ts ++ extra)) := by
  rw [moreArguments, moreArguments]
  refine Proceeds.bind (ih.expression hts (h.of (by omega) (by omega)))
    fun arg rest harg hl => ?_
  obtain ⟨t, rest, rfl⟩ := hl.supply.exists_cons
  simp only [List.cons_append, nextKind_cons, List.tail_cons]
  refine .ite (fun ht => ?_) fun _ => ?_
  · replace hl := hl.trans (.tail hl.supply (by simp [ht]))
    have hn := hl.length
    refine Proceeds.bind (ih.moreArguments hl.supply (h.of (by omega) (by omega)))
      fun args rest hargs hr => ?_
    exact Proceeds.ok (.cons harg hargs) ((hl.trans hr).mono (by omega))
  · refine Skips.bind (expect_skips (by simp) _ hl.supply) fun rest hr => ?_
    exact Proceeds.ok (.cons harg .nil) ((hl.trans hr).mono (by omega))

end Expressions

/-- **Expressions are read with progress**, by one induction over all functions that read them. -/
theorem expressionProgress (fuel : Nat) : ExpressionProgress S short extra fuel := by
  induction fuel with
  | zero =>
    -- A supply is not empty, so no fuel is not enough.
    refine ⟨fun hts h => ?_, fun hts h => ?_, fun hts h _ => ?_, fun hts h => ?_, fun hts h => ?_,
      fun hts h => ?_, fun hts h => ?_⟩
    all_goals exact .exhausted (h.isShort (by have := hts.length_pos; omega))
  | succ fuel ih =>
    constructor
    case expression =>
      intro _ _ hts h
      obtain ⟨k, rfl⟩ := h.exists_succ 0 (by have := hts.length_pos; omega)
      exact expression_progress ih hts h
    case binary =>
      intro _ _ _ hts h
      obtain ⟨k, rfl⟩ := h.exists_succ 1 (by have := hts.length_pos; omega)
      exact binary_progress ih hts h
    case operators =>
      intro _ _ _ _ hts h hleft
      obtain ⟨k, rfl⟩ := h.exists_succ 3 (by have := hts.length_pos; omega)
      exact operators_progress ih hts h hleft
    case unary =>
      intro _ _ hts h
      obtain ⟨k, rfl⟩ := h.exists_succ 2 (by have := hts.length_pos; omega)
      exact unary_progress ih hts h
    case primary =>
      intro _ _ hts h
      obtain ⟨k, rfl⟩ := h.exists_succ 3 (by have := hts.length_pos; omega)
      exact primary_progress ih hts h
    case arguments =>
      intro _ _ hts h
      obtain ⟨k, rfl⟩ := h.exists_succ 0 (by omega)
      exact arguments_progress ih hts h
    case moreArguments =>
      intro _ _ hts h
      obtain ⟨k, rfl⟩ := h.exists_succ 0 (by omega)
      exact moreArguments_progress ih hts h

end Script
end VisualBlocks

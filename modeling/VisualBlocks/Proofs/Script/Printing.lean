import Mathlib
import VisualBlocks.Proofs.Script.StatementReading

/-!
# Printing programs

`Program.print` writes a program as lexemes: bodies in braces, a semicolon after each simple
statement, and parentheses around an operand only where its place asks for a tighter binding than
it has.  The text of a number is not the printer's business; `digits` chooses it for each leaf, by
the position of the leaf as well as by its value, so that equal numbers may be spelt differently.

* **What is printed is parsed as what was printed**, at whatever positions the tokens stand.
* **No other way of writing an expression has fewer parentheses** (`Spells.parens_print_le`), and
  this for every way in which the grammar lets it be written.

The first rests on the grammar alone (`Expr.spells_print`, `bodyPrint_writes`), so the printer is
compared with the parser by way of `Spells` and `Writes` and never with the parser's own recursion.
-/

set_option autoImplicit false

namespace VisualBlocks
namespace Script

variable (digits : Position → Float → String)

/-! ## Expressions -/

/-- The lexemes, in parentheses if they are needed. -/
def grouped (needed : Bool) (w : List Lexeme) : List Lexeme :=
  if needed then .leftParen :: (w ++ [.rightParen]) else w

/-- How tightly an expression binds that stands without parentheses. -/
def Expr.level : Expr → Nat
  | .conditional _ _ _ _ => 0
  | .binary _ op _ _ => op.precedence
  | _ => operandLevel

mutual

/-- An expression without parentheses around it. -/
def Expr.bare : Expr → List Lexeme
  | .number pos x => [⟨.number, digits pos x⟩]
  | .string _ s => [⟨.string, s⟩]
  | .bool _ b => [.keyword (if b then "true" else "false")]
  | .null _ => [.keyword "null"]
  | .var _ name => [.name name]
  | .unary _ op operand =>
    .operator op.symbol :: grouped (operand.level < operandLevel) operand.bare
  | .binary _ op left right =>
    grouped (left.level < op.precedence) left.bare ++
      .operator op.symbol :: grouped (right.level < op.precedence + 1) right.bare
  | .conditional _ test yes no =>
    grouped (test.level < 1) test.bare ++ .question :: (yes.bare ++ .colon :: no.bare)
  | .call _ callee args =>
    .name callee :: .leftParen :: (separated (argsPrint args) ++ [.rightParen])

/-- The arguments of a call, one by one. -/
def argsPrint : List Expr → List (List Lexeme)
  | [] => []
  | e :: es => e.bare :: argsPrint es

end

/-- An expression in a place that asks for a binding at least as tight as the level. -/
def Expr.print (level : Nat) (e : Expr) : List Lexeme :=
  grouped (e.level < level) (e.bare digits)

mutual

/-- Does the text of every number in the expression read as the number? -/
def Expr.ReadsBack : Expr → Prop
  | .number pos x => Number.float? (digits pos x) = some x
  | .string _ _ | .bool _ _ | .null _ | .var _ _ => True
  | .unary _ _ operand => operand.ReadsBack
  | .binary _ _ left right => left.ReadsBack ∧ right.ReadsBack
  | .conditional _ test yes no => test.ReadsBack ∧ yes.ReadsBack ∧ no.ReadsBack
  | .call _ _ args => argsReadBack args

/-- Does the text of every number in the expressions read as the number? -/
def argsReadBack : List Expr → Prop
  | [] => True
  | e :: es => e.ReadsBack ∧ argsReadBack es

end

section Expressions

variable {digits}

theorem Expr.print_zero (e : Expr) : e.print digits 0 = e.bare digits := by
  simp [Expr.print, grouped]

theorem Expr.bare_unary (pos : Position) (op : UnaryOp) (operand : Expr) :
    (Expr.unary pos op operand).bare digits =
      .operator op.symbol :: operand.print digits operandLevel := by
  rw [Expr.bare, Expr.print]

theorem Expr.bare_binary (pos : Position) (op : BinaryOp) (left right : Expr) :
    (Expr.binary pos op left right).bare digits =
      left.print digits op.precedence ++
        .operator op.symbol :: right.print digits (op.precedence + 1) := by
  rw [Expr.bare, Expr.print, Expr.print]

theorem Expr.bare_conditional (pos : Position) (test yes no : Expr) :
    (Expr.conditional pos test yes no).bare digits =
      test.print digits 1 ++ .question :: (yes.print digits 0 ++ .colon :: no.print digits 0) := by
  rw [Expr.bare, Expr.print, Expr.print_zero, Expr.print_zero]

theorem Spells.print {e : Expr} (h : Spells e.level (e.bare digits) e.strip) (level : Nat) :
    Spells level (e.print digits level) e.strip := by
  rw [Expr.print, grouped]
  by_cases hlevel : e.level < level
  · simp only [hlevel, decide_true, if_true]
    exact .group (h.mono (Nat.zero_le _))
  · simp only [hlevel, decide_false]
    exact h.mono (Nat.not_lt.1 hlevel)

mutual

/-- **An expression is spelt as it is printed.** -/
theorem Expr.spells_bare (e : Expr) (h : e.ReadsBack digits) :
    Spells e.level (e.bare digits) e.strip := by
  cases e with
  | number pos x =>
    rw [Expr.ReadsBack] at h
    exact .number h
  | string pos s => exact .string s
  | bool pos b => cases b <;> exact .keyword rfl
  | null pos => exact .keyword rfl
  | var pos name => exact .var name
  | unary pos op operand =>
    rw [Expr.ReadsBack] at h
    exact .unary op (Nat.le_refl _) ((Expr.spells_bare operand h).print operandLevel)
  | binary pos op left right =>
    rw [Expr.ReadsBack] at h
    exact .binary op (Nat.le_refl _) ((Expr.spells_bare left h.1).print _)
      ((Expr.spells_bare right h.2).print _)
  | conditional pos test yes no =>
    rw [Expr.ReadsBack] at h
    rw [Expr.bare]
    exact .conditional ((Expr.spells_bare test h.1).print 1)
      ((Expr.spells_bare yes h.2.1).mono (Nat.zero_le _))
      ((Expr.spells_bare no h.2.2).mono (Nat.zero_le _))
  | call pos callee args =>
    rw [Expr.ReadsBack] at h
    obtain ⟨parts, hparts, htexts, hexprs⟩ := argsPrint_spells args h
    rw [Expr.bare, Expr.strip, ← htexts, ← hexprs]
    exact .call callee hparts

/-- The arguments of a call are spelt as they are printed. -/
theorem argsPrint_spells (es : List Expr) (h : argsReadBack digits es) :
    ∃ parts : List (List Lexeme × Expr), (∀ part ∈ parts, Spells 0 part.1 part.2) ∧
      parts.map (·.1) = argsPrint digits es ∧ parts.map (·.2) = stripAll es := by
  cases es with
  | nil => exact ⟨[], nofun, rfl, rfl⟩
  | cons e es =>
    rw [argsReadBack] at h
    obtain ⟨parts, hparts, htexts, hexprs⟩ := argsPrint_spells es h.2
    have hhead : Spells 0 (e.bare digits) e.strip :=
      (Expr.spells_bare e h.1).mono (Nat.zero_le _)
    refine ⟨(e.bare digits, e.strip) :: parts, List.forall_mem_cons.2 ⟨hhead, hparts⟩, ?_, ?_⟩
    · rw [List.map_cons, htexts, argsPrint]
    · rw [List.map_cons, hexprs, stripAll]

end

/-- **An expression is spelt as it is printed**, in every place. -/
theorem Expr.spells_print {e : Expr} (h : e.ReadsBack digits) (level : Nat) :
    Spells level (e.print digits level) e.strip := (e.spells_bare h).print level

example :
    ((Expr.binary .start .sub (.var .start "a") (.binary .start .sub (.number .start 1)
      (.unary .start .not (.var .start "b")))).print (fun _ _ => "1") 0).map Lexeme.text =
      ["a", "-", "(", "1", "-", "!", "b", ")"] := by
  decide

end Expressions

/-! ## Parentheses

The opening parentheses of a text are counted, those of calls too; both ways of writing an
expression have as many of these. -/

/-- How many parentheses are opened. -/
def parens (w : List Lexeme) : Nat := w.countP fun l => l.kind == .leftParen

@[simp] theorem parens_nil : parens [] = 0 := rfl

@[simp] theorem parens_cons (l : Lexeme) (w : List Lexeme) :
    parens (l :: w) = parens w + if l.kind = .leftParen then 1 else 0 := by
  simp [parens, List.countP_cons]

@[simp] theorem parens_append (v w : List Lexeme) : parens (v ++ w) = parens v + parens w :=
  List.countP_append

theorem parens_grouped (needed : Bool) (w : List Lexeme) :
    parens (grouped needed w) = parens w + if needed then 1 else 0 := by
  cases needed <;> simp [grouped, Lexeme.leftParen, Lexeme.rightParen]

theorem parens_separated (ws : List (List Lexeme)) :
    parens (separated ws) = (ws.map parens).sum := by
  induction ws with
  | nil => rfl
  | cons w ws ih =>
    cases ws with
    | nil => simp [separated]
    | cons v ws => simp [separated, ih, Lexeme.comma]

section Minimality

variable {digits}

theorem Expr.print_of_level_le {e : Expr} {level : Nat} (h : level ≤ e.level) :
    e.print digits level = e.bare digits := by
  simp [Expr.print, grouped, Nat.not_lt.2 h]

theorem Expr.parens_print_le (e : Expr) (level : Nat) :
    parens (e.print digits level) ≤ parens (e.print digits 0) + 1 := by
  rw [e.print_zero, Expr.print, parens_grouped]
  split <;> omega

theorem BinaryOp.precedence_lt_operandLevel (op : BinaryOp) : op.precedence < operandLevel := by
  cases op <;> decide

/-- The arguments of a call have no more parentheses than any spellings of them. -/
theorem parens_argsPrint_le {parts : List (List Lexeme × Expr)}
    (h : ∀ part ∈ parts, ∀ e : Expr, e.strip = part.2 →
      parens (e.print digits 0) ≤ parens part.1) {args : List Expr}
    (hargs : stripAll args = parts.map (·.2)) :
    ((argsPrint digits args).map parens).sum ≤ ((parts.map (·.1)).map parens).sum := by
  induction parts generalizing args with
  | nil =>
    cases args with
    | nil => simp [argsPrint]
    | cons e es => simp [stripAll] at hargs
  | cons part parts ih =>
    cases args with
    | nil => simp [stripAll] at hargs
    | cons e es =>
      simp only [stripAll, List.map_cons, List.cons.injEq] at hargs
      have hhead := h part List.mem_cons_self e hargs.1
      rw [e.print_zero] at hhead
      have htail := ih (fun part hpart => h part (List.mem_cons_of_mem _ hpart)) hargs.2
      simp only [argsPrint, List.map_cons, List.sum_cons]
      omega

/-- Is the expression a literal or a name? -/
def Expr.isAtom : Expr → Bool
  | .number _ _ | .string _ _ | .bool _ _ | .null _ | .var _ _ => true
  | _ => false

/-- Literals and names have no parentheses. -/
theorem Expr.parens_print_of_isAtom {e : Expr} (h : e.strip.isAtom = true) {level : Nat}
    (hlevel : level ≤ operandLevel) : parens (e.print digits level) = 0 := by
  have hbare : level ≤ e.level ∧ parens (e.bare digits) = 0 := by
    cases e <;> simp only [Expr.strip, Expr.isAtom, Bool.false_eq_true] at h <;>
      simp [Expr.level, Expr.bare, Lexeme.keyword, Lexeme.name, hlevel]
  rw [Expr.print_of_level_le hbare.1, hbare.2]

theorem isAtom_of_keywordLiteral? {t : Token} {e : Expr} (h : keywordLiteral? t = some e) :
    e.isAtom = true := by
  simp only [keywordLiteral?] at h
  split_ifs at h <;> (cases h; rfl)

/-- **No spelling of an expression has fewer parentheses than its print**, in any place. -/
theorem Spells.parens_print_le {level : Nat} {w : List Lexeme} {e₀ : Expr} (h : Spells level w e₀)
    (hlevel : level ≤ operandLevel) {e : Expr} (he : e.strip = e₀) :
    parens (e.print digits level) ≤ parens w := by
  induction h generalizing e with
  | number h => simp [Expr.parens_print_of_isAtom (e := e) (by rw [he]; rfl) hlevel]
  | string text => simp [Expr.parens_print_of_isAtom (e := e) (by rw [he]; rfl) hlevel]
  | var name => simp [Expr.parens_print_of_isAtom (e := e) (by rw [he]; rfl) hlevel]
  | keyword h =>
    simp [Expr.parens_print_of_isAtom (he ▸ isAtom_of_keywordLiteral? h) hlevel]
  | call callee h ih =>
    cases e <;> simp only [Expr.strip, reduceCtorEq, Expr.call.injEq] at he
    obtain ⟨-, rfl, hargs⟩ := he
    have hargument (part : List Lexeme × Expr) (hpart : part ∈ _) (e : Expr)
        (he : e.strip = part.2) : parens (e.print digits 0) ≤ parens part.1 :=
      ih part hpart (Nat.zero_le _) he
    have hparts := parens_argsPrint_le hargument hargs
    rw [Expr.print_of_level_le (e := .call _ _ _) hlevel, Expr.bare]
    simp only [parens_cons, parens_append, parens_separated]
    omega
  | group h ih =>
    have hinner := ih (Nat.zero_le _) he
    refine Nat.le_trans (e.parens_print_le _) ?_
    simpa [Lexeme.leftParen, Lexeme.rightParen] using hinner
  | unary op hp h ih =>
    cases e <;> simp only [Expr.strip, reduceCtorEq, Expr.unary.injEq] at he
    obtain ⟨-, rfl, hoperand⟩ := he
    have := ih (Nat.le_refl _) hoperand
    rw [Expr.print_of_level_le (e := .unary _ _ _) hlevel, Expr.bare_unary]
    simp only [parens_cons]
    omega
  | binary op hp ha hb iha ihb =>
    cases e <;> simp only [Expr.strip, reduceCtorEq, Expr.binary.injEq] at he
    obtain ⟨-, rfl, hleft, hright⟩ := he
    have := iha (Nat.le_of_lt (BinaryOp.precedence_lt_operandLevel _)) hleft
    have := ihb (BinaryOp.precedence_lt_operandLevel _) hright
    rw [Expr.print_of_level_le (e := .binary _ _ _ _) hp, Expr.bare_binary]
    simp only [parens_cons, parens_append]
    omega
  | conditional ht hy hn iht ihy ihn =>
    cases e <;> simp only [Expr.strip, reduceCtorEq, Expr.conditional.injEq] at he
    obtain ⟨-, htest, hyes, hno⟩ := he
    have := iht (by decide) htest
    have := ihy (Nat.zero_le _) hyes
    have := ihn (Nat.zero_le _) hno
    rw [Expr.print_zero, Expr.bare_conditional]
    simp only [parens_cons, parens_append]
    omega

end Minimality

/-! ## Statements -/

/-- A variable that is declared, with its first value if it has one. -/
def declaratorPrint : String × Option Expr → List Lexeme
  | (name, none) => [.name name]
  | (name, some value) => .name name :: .operator "=" :: value.bare digits

/-- A statement without braces, as it stands before a semicolon and in the head of a loop. -/
def Statement.clause : Statement → List Lexeme
  | .declare _ names => .keyword "var" :: separated (names.map (declaratorPrint digits))
  | .assign _ name op value => .name name :: .operator op.symbol :: value.bare digits
  | .expr _ value => value.bare digits
  | .ifElse _ _ _ | .whileLoop _ _ _ | .forLoop _ _ _ _ _ => []

/-- A body in braces. -/
def braced (body : List Lexeme) : List Lexeme := .leftBrace :: (body ++ [.rightBrace])

/-- A body in braces under a head in parentheses after a word. -/
def headed (word : String) (head body : List Lexeme) : List Lexeme :=
  .keyword word :: .leftParen :: (head ++ .rightParen :: braced body)

mutual

/-- A statement, with the semicolon or the brace that ends it. -/
def Statement.print : Statement → List Lexeme
  | .declare pos names => (Statement.declare pos names).clause digits ++ [.semicolon]
  | .assign pos name op value => (Statement.assign pos name op value).clause digits ++ [.semicolon]
  | .expr pos value => (Statement.expr pos value).clause digits ++ [.semicolon]
  | .ifElse _ branches otherwise =>
    [Lexeme.keyword "else"].intercalate (branchesPrint branches ++
      if otherwise.isEmpty then [] else [braced (bodyPrint otherwise)])
  | .whileLoop _ condition body => headed "while" (condition.bare digits) (bodyPrint body)
  | .forLoop _ init condition update body =>
    headed "for"
      (init.elim [] (Statement.clause digits) ++ .semicolon ::
        (condition.elim [] (Expr.bare digits) ++ .semicolon ::
          update.elim [] (Statement.clause digits)))
      (bodyPrint body)

/-- Statements one after the other. -/
def bodyPrint : List Statement → List Lexeme
  | [] => []
  | s :: ss => s.print ++ bodyPrint ss

/-- The branches of a conditional statement, one by one. -/
def branchesPrint : List (Expr × List Statement) → List (List Lexeme)
  | [] => []
  | (condition, body) :: rest =>
    headed "if" (condition.bare digits) (bodyPrint body) :: branchesPrint rest

end

/-- A program. -/
def Program.print (p : Program) : List Lexeme := bodyPrint digits p.body

/-- Can the statement be written without braces, and does the text of every number in it read as
the number? -/
def Statement.IsClause : Statement → Prop
  | .declare _ names => names ≠ [] ∧ ∀ d ∈ names, ∀ e ∈ d.2, e.ReadsBack digits
  | .assign _ _ _ value | .expr _ value => value.ReadsBack digits
  | .ifElse _ _ _ | .whileLoop _ _ _ | .forLoop _ _ _ _ _ => False

/-- Does the statement make variables? -/
def Statement.declares : Statement → Bool
  | .declare _ _ => true
  | _ => false

mutual

/-- Can the statement be written down?  Declarations have a name and conditional statements a
branch, only clauses stand in the heads of loops, and the text of every number reads as the
number. -/
def Statement.Printable : Statement → Prop
  | .declare pos names => (Statement.declare pos names).IsClause digits
  | .assign pos name op value => (Statement.assign pos name op value).IsClause digits
  | .expr pos value => (Statement.expr pos value).IsClause digits
  | .ifElse _ branches otherwise =>
    branches ≠ [] ∧ branchesPrintable branches ∧ bodyPrintable otherwise
  | .whileLoop _ condition body => condition.ReadsBack digits ∧ bodyPrintable body
  | .forLoop _ init condition update body =>
    (∀ s ∈ init, s.IsClause digits) ∧ (∀ e ∈ condition, e.ReadsBack digits) ∧
      (∀ s ∈ update, s.IsClause digits ∧ s.declares = false) ∧ bodyPrintable body

/-- Can the statements be written down? -/
def bodyPrintable : List Statement → Prop
  | [] => True
  | s :: ss => s.Printable ∧ bodyPrintable ss

/-- Can the branches be written down? -/
def branchesPrintable : List (Expr × List Statement) → Prop
  | [] => True
  | (condition, body) :: rest =>
    condition.ReadsBack digits ∧ bodyPrintable body ∧ branchesPrintable rest

end

/-- Can the program be written down? -/
def Program.Printable (p : Program) : Prop := bodyPrintable digits p.body

section Statements

variable {digits}

/-- What stands in the place of a whole expression is spelt as it is printed. -/
theorem Expr.spells_zero {e : Expr} (h : e.ReadsBack digits) : Spells 0 (e.bare digits) e.strip :=
  (e.spells_bare h).mono (Nat.zero_le _)

/-! ### Clauses -/

theorem declarator_declaratorPrint {d : String × Option Expr}
    (h : ∀ e ∈ d.2, e.ReadsBack digits) :
    Declarator (declaratorPrint digits d) (stripDeclarator d) := by
  obtain ⟨name, value⟩ := d
  cases value with
  | none => exact .bare name
  | some e => exact .init name (Expr.spells_zero (h e rfl))

theorem declares_separated {names : List (String × Option Expr)} (hne : names ≠ [])
    (h : ∀ d ∈ names, ∀ e ∈ d.2, e.ReadsBack digits) :
    Declares (separated (names.map (declaratorPrint digits))) (names.map stripDeclarator) := by
  induction names with
  | nil => exact absurd rfl hne
  | cons d ds ih =>
    have hd := declarator_declaratorPrint (h d List.mem_cons_self)
    cases ds with
    | nil => exact .last hd
    | cons d' ds =>
      exact .more hd (ih (List.cons_ne_nil _ _) fun d hd => h d (List.mem_cons_of_mem _ hd))

/-- A clause that makes no variables is a simple statement. -/
theorem Statement.IsClause.simple {s : Statement} (h : s.IsClause digits)
    (hs : s.declares = false) : Simple (s.clause digits) s.strip := by
  cases s with
  | declare pos names => exact Bool.noConfusion hs
  | assign pos name op value => exact .assign name op (Expr.spells_zero h)
  | expr pos value => exact .expr (Expr.spells_zero h)
  | ifElse _ _ _ | whileLoop _ _ _ | forLoop _ _ _ _ _ => exact h.elim

theorem Statement.IsClause.initialises {s : Statement} (h : s.IsClause digits) :
    Initialises (s.clause digits) (some s.strip) := by
  by_cases hs : s.declares = true
  · cases s with
    | declare pos names =>
      rw [Statement.clause, Statement.strip]
      exact .declare (declares_separated h.1 h.2)
    | _ => exact Bool.noConfusion hs
  · exact .simple (h.simple (Bool.eq_false_iff.2 hs))

theorem initialises_clause {init : Option Statement} (h : ∀ s ∈ init, s.IsClause digits) :
    Initialises (init.elim [] (Statement.clause digits)) (stripOption init) := by
  cases init with
  | none => exact .absent
  | some s => exact (h s rfl).initialises

theorem conditions_bare {condition : Option Expr} (h : ∀ e ∈ condition, e.ReadsBack digits) :
    Conditions (condition.elim [] (Expr.bare digits)) (condition.map Expr.strip) := by
  cases condition with
  | none => exact .absent
  | some e => exact .present (Expr.spells_zero (h e rfl))

theorem updates_clause {update : Option Statement}
    (h : ∀ s ∈ update, s.IsClause digits ∧ s.declares = false) :
    Updates (update.elim [] (Statement.clause digits)) (stripOption update) := by
  cases update with
  | none => exact .absent
  | some s => exact .present ((h s rfl).1.simple (h s rfl).2)

/-- A clause with a semicolon after it, and what is written further on. -/
theorem Statement.IsClause.writes {s : Statement} (h : s.IsClause digits) {w : List Lexeme}
    {ss : List Statement} (hrest : Writes w ss) :
    Writes (s.clause digits ++ .semicolon :: w) (s.strip :: ss) := by
  by_cases hs : s.declares = true
  · cases s with
    | declare pos names =>
      rw [Statement.clause, Statement.strip]
      exact .declare (declares_separated h.1 h.2) hrest
    | _ => exact Bool.noConfusion hs
  · exact .simple (h.simple (Bool.eq_false_iff.2 hs)) hrest

/-! ### Statements with bodies -/

/-- Branches with `else` between them, and `else` before the statements for all other cases. -/
theorem intercalate_else (first : Branch) (more : List Branch)
    (otherwise : Option (List Lexeme × List Statement)) :
    [Lexeme.keyword "else"].intercalate
        ((first :: more).map Branch.text ++ otherwise.elim [] fun o => [braced o.1]) =
      first.text ++ (elseIfs more ++ elseText otherwise) := by
  induction more generalizing first with
  | nil => cases otherwise <;> simp [elseIfs, elseText, braced]
  | cons b bs ih =>
    have := ih b
    simp only [List.map_cons, List.cons_append] at this ⊢
    rw [List.intercalate_cons_cons, this, elseIfs]
    simp

/-- The statements for all other cases are written in braces after `else`, if there are any. -/
theorem exists_elseBody {otherwise : List Statement}
    (h : Writes (bodyPrint digits otherwise) (stripStatements otherwise)) :
    ∃ o : Option (List Lexeme × List Statement),
      (o.elim [] fun o => [braced o.1]) =
        (if otherwise.isEmpty then [] else [braced (bodyPrint digits otherwise)]) ∧
      elseBody o = stripStatements otherwise ∧ ∀ part ∈ o, Writes part.1 part.2 := by
  cases otherwise with
  | nil => exact ⟨none, rfl, rfl, nofun⟩
  | cons s ss => exact ⟨some (_, _), rfl, rfl, fun part hpart => Option.some.inj hpart ▸ h⟩

mutual

/-- **A statement is written as it is printed**, and what comes after it as it is. -/
theorem Statement.print_writes (s : Statement) (h : s.Printable digits) {w : List Lexeme}
    {ss : List Statement} (hrest : Writes w ss) :
    Writes (s.print digits ++ w) (s.strip :: ss) := by
  cases s with
  | declare pos names =>
    rw [Statement.Printable] at h
    simpa [Statement.print] using h.writes hrest
  | assign pos name op value =>
    rw [Statement.Printable] at h
    simpa [Statement.print] using h.writes hrest
  | expr pos value =>
    rw [Statement.Printable] at h
    simpa [Statement.print] using h.writes hrest
  | ifElse pos branches otherwise =>
    rw [Statement.Printable] at h
    obtain ⟨hne, hbranches, hotherwise⟩ := h
    obtain ⟨bs, htexts, hparts, hconditions, hbodies⟩ := branchesPrint_writes branches hbranches
    obtain ⟨o, ho, hbody, hwrites⟩ := exists_elseBody (bodyPrint_writes otherwise hotherwise)
    cases bs with
    | nil =>
      cases branches with
      | nil => exact absurd rfl hne
      | cons b bs => simp [branchesPrint] at htexts
    | cons first more =>
      have hall := Writes.ifElse hconditions hbodies hwrites hrest
      rw [hparts, hbody] at hall
      rw [Statement.print, Statement.strip, ← htexts, ← ho, intercalate_else]
      simpa using hall
  | whileLoop pos condition body =>
    rw [Statement.Printable] at h
    simpa [Statement.print, Statement.strip, headed, braced] using
      Writes.whileLoop (Expr.spells_zero h.1) (bodyPrint_writes body h.2) hrest
  | forLoop pos init condition update body =>
    rw [Statement.Printable] at h
    obtain ⟨hinit, hcondition, hupdate, hbody⟩ := h
    simpa [Statement.print, Statement.strip, headed, braced] using
      Writes.forLoop (initialises_clause hinit) (conditions_bare hcondition)
        (updates_clause hupdate) (bodyPrint_writes body hbody) hrest

/-- **Statements are written as they are printed.** -/
theorem bodyPrint_writes (ss : List Statement) (h : bodyPrintable digits ss) :
    Writes (bodyPrint digits ss) (stripStatements ss) := by
  cases ss with
  | nil => exact .nil
  | cons s ss =>
    rw [bodyPrintable] at h
    exact Statement.print_writes s h.1 (bodyPrint_writes ss h.2)

/-- The branches of a conditional statement are written as they are printed. -/
theorem branchesPrint_writes (branches : List (Expr × List Statement))
    (h : branchesPrintable digits branches) :
    ∃ bs : List Branch, bs.map Branch.text = branchesPrint digits branches ∧
      bs.map Branch.parts = stripBranches branches ∧
      (∀ b ∈ bs, Spells 0 b.conditionText b.condition) ∧ ∀ b ∈ bs, Writes b.bodyText b.body := by
  match branches with
  | [] => exact ⟨[], rfl, rfl, nofun, nofun⟩
  | (condition, body) :: rest =>
    rw [branchesPrintable] at h
    obtain ⟨bs, htexts, hparts, hconditions, hbodies⟩ := branchesPrint_writes rest h.2.2
    let b : Branch := ⟨condition.bare digits, condition.strip, bodyPrint digits body,
      stripStatements body⟩
    refine ⟨b :: bs, ?_, ?_, List.forall_mem_cons.2 ⟨Expr.spells_zero h.1, hconditions⟩,
      List.forall_mem_cons.2 ⟨bodyPrint_writes body h.2.1, hbodies⟩⟩
    · rw [List.map_cons, htexts, branchesPrint]
      rfl
    · rw [List.map_cons, hparts, stripBranches]
      rfl

end

end Statements

/-! ## Reading what is printed

The printed text has no token for the end of the input.  The parser adds one, because a text that
is written ends in a semicolon or a brace. -/

/-- Is the text empty or ended by a semicolon or a closing brace? -/
def Ended (w : List Lexeme) : Prop := ∀ l ∈ w.getLast?, l = .semicolon ∨ l = .rightBrace

theorem Ended.append {v w : List Lexeme} (hv : Ended v) (hw : Ended w) : Ended (v ++ w) := by
  intro l hl
  rw [List.getLast?_append] at hl
  cases h : w.getLast? with
  | none => exact hv l (by simpa [h] using hl)
  | some m => exact hw l (by simpa [h] using hl)

/-- What stands before the end does not matter. -/
theorem ended_concat (v : List Lexeme) {l : Lexeme} (hl : l = .semicolon ∨ l = .rightBrace) :
    Ended (v ++ [l]) := by
  simpa [Ended] using hl

theorem ended_elseIfs (bs : List Branch) : Ended (elseIfs bs) := by
  induction bs with
  | nil => exact nofun
  | cons b bs ih =>
    have hb := (ended_concat (.keyword "else" :: .keyword "if" :: .leftParen ::
      (b.conditionText ++ .rightParen :: .leftBrace :: b.bodyText)) (.inr rfl)).append ih
    simpa [elseIfs, Branch.text] using hb

theorem ended_elseText (otherwise : Option (List Lexeme × List Statement)) :
    Ended (elseText otherwise) := by
  cases otherwise with
  | none => exact nofun
  | some o => exact ended_concat (.keyword "else" :: .leftBrace :: o.1) (.inr rfl)

theorem Writes.ended {w : List Lexeme} {ss : List Statement} (h : Writes w ss) : Ended w := by
  induction h with
  | nil => exact nofun
  | @simple v w _ _ _ _ ih =>
    simpa using (ended_concat v (.inl rfl)).append ih
  | @declare v w _ _ _ _ ih =>
    simpa using (ended_concat (.keyword "var" :: v) (.inl rfl)).append ih
  | @ifElse first more otherwise w ss _ _ _ _ _ _ ih =>
    have hfirst := ended_concat (.keyword "if" :: .leftParen :: (first.conditionText ++
      .rightParen :: .leftBrace :: first.bodyText)) (.inr rfl)
    have := hfirst.append ((ended_elseIfs more).append ((ended_elseText otherwise).append ih))
    simpa [Branch.text] using this
  | @whileLoop u v w _ _ _ _ _ _ _ ih =>
    have := (ended_concat (.keyword "while" :: .leftParen :: (u ++ .rightParen ::
      .leftBrace :: v)) (.inr rfl)).append ih
    simpa using this
  | @forLoop s t u v w _ _ _ _ _ _ _ _ _ _ _ ih =>
    have := (ended_concat (.keyword "for" :: .leftParen :: (s ++ .semicolon :: (t ++
      .semicolon :: (u ++ .rightParen :: .leftBrace :: v)))) (.inr rfl)).append ih
    simpa using this

/-- The parser adds the end of the input to tokens that do not have it. -/
theorem exists_closed_of_ended {ts : List Token} (h : Ended (lexemes ts)) :
    ∃ pos, closed ts = ts ++ [Token.closing pos] := by
  rw [closed]
  cases hlast : ts.getLast? with
  | none =>
    obtain rfl := List.getLast?_eq_none_iff.1 hlast
    exact ⟨.start, rfl⟩
  | some t =>
    have ht : t.lexeme = .semicolon ∨ t.lexeme = .rightBrace := by
      apply h
      rw [lexemes, List.getLast?_map, hlast]
      rfl
    have hkind : t.kind ≠ .endOfInput := by
      intro heq
      cases t with
      | mk kind text pos => rcases ht with ht | ht <;> cases heq <;> cases ht
    exact ⟨t.pos, if_neg hkind⟩

/-- What is written is parsed as what it says, whether or not the tokens come with the end of the
input. -/
theorem parseTokens_of_writes_open {w : List Lexeme} {ss : List Statement} (h : Writes w ss)
    {ts : List Token} (hts : lexemes ts = w) :
    ∃ p, parseTokens ts = .ok p ∧ stripStatements p.body = ss := by
  have hended : Ended (lexemes ts) := hts ▸ h.ended
  obtain ⟨pos, hclosed⟩ := exists_closed_of_ended hended
  obtain ⟨p, hp, hss⟩ := parseTokens_of_writes h hts pos
  refine ⟨p, ?_, hss⟩
  rw [← hp, parseTokens, parseTokens, hclosed, closed_closing]

variable {digits}

/-- **What is printed is parsed as what was printed**, with the end of the input or without it and
at whatever positions, and no other spelling of an expression in a place has fewer parentheses
than its print. -/
theorem Program.parse_print (p : Program) (h : p.Printable digits) :
    (∀ ts, lexemes ts = p.print digits →
      (∃ q, parseTokens ts = .ok q ∧ stripStatements q.body = stripStatements p.body) ∧
      ∀ pos, ∃ q, parseTokens (ts ++ [Token.closing pos]) = .ok q ∧
        stripStatements q.body = stripStatements p.body) ∧
    ∀ (e : Expr) (level : Nat) (w : List Lexeme), level ≤ operandLevel →
      Spells level w e.strip → parens (e.print digits level) ≤ parens w := by
  have hwrites := bodyPrint_writes p.body h
  refine ⟨fun ts hts => ⟨parseTokens_of_writes_open hwrites hts, fun pos => ?_⟩, ?_⟩
  · exact parseTokens_of_writes hwrites hts pos
  · intro e level w hlevel hw
    exact hw.parens_print_le hlevel rfl

/-- Ones, spelt in two ways. -/
def twoSpellings (pos : Position) (_ : Float) : String := if pos = .start then "1" else "1.0"

/-- A program in which every construct stands in another and every kind of operand needs
parentheses somewhere. -/
def nestedProgram : Program :=
  let one : Expr := .number .start 1
  let other : Expr := .number ⟨2, 1⟩ 1
  let x : Expr := .var .start "x"
  let difference : Expr := .binary .start .sub x (.binary .start .sub one other)
  let choice : Expr := .conditional .start (.conditional .start x one other)
    (.unary .start .not (.binary .start .and x difference)) (.call .start "f" [difference, x])
  let step : Statement := .assign .start "x" .add (.unary .start .negate (.unary .start .negate one))
  ⟨[.declare .start [("x", some choice), ("y", none)],
    .ifElse .start
      [(choice, [.whileLoop .start x [.ifElse .start [(x, [step])] []]]),
        (.binary .start .mul choice x, [])]
      [.forLoop .start (some (.declare .start [("i", some one)])) none (some step)
        [.expr .start (.call .start "f" [])]]]⟩

theorem nestedProgram_parses :
    nestedProgram.Printable twoSpellings ∧
    (∀ ts, lexemes ts = nestedProgram.print twoSpellings →
      (∃ q, parseTokens ts = .ok q ∧
        stripStatements q.body = stripStatements nestedProgram.body) ∧
      ∀ pos, ∃ q, parseTokens (ts ++ [Token.closing pos]) = .ok q ∧
        stripStatements q.body = stripStatements nestedProgram.body) ∧
    ∀ (e : Expr) (level : Nat) (w : List Lexeme), level ≤ operandLevel →
      Spells level w e.strip → parens (e.print twoSpellings level) ≤ parens w := by
  have h : nestedProgram.Printable twoSpellings := by
    have hone : Number.float? "1" = some 1 := by decide +kernel
    have hother : Number.float? "1.0" = some 1 := by decide +kernel
    simp [nestedProgram, Program.Printable, bodyPrintable, Statement.Printable,
      Statement.IsClause, Statement.declares, branchesPrintable, Expr.ReadsBack, argsReadBack,
      twoSpellings, Position.start, hone, hother]
  exact ⟨h, Program.parse_print nestedProgram h⟩

end Script
end VisualBlocks

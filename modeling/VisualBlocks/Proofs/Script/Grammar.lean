import VisualBlocks.Script.Parser

/-!
# How expressions are spelt

The grammar of expressions, said as a relation between what is written and what it means, with no
parser in it.

* `Lexeme` is a token without its position, and `Expr.strip` an expression without positions.
* `Spells p w e`: written as `w`, an expression that binds at least as tightly as `p` is `e`.  The
  levels are those of the parser: `0` for a conditional, the precedence of an operator between
  operands, and `7` for what is read as one operand.
* `Regrouped` holds of expressions that differ only in how sums, products, conjunctions and
  disjunctions are grouped.
-/

set_option autoImplicit false

namespace VisualBlocks
namespace Script

/-! ## Without positions -/

/-- A token without its position. -/
structure Lexeme where
  kind : TokenKind
  text : String
deriving Repr, DecidableEq

/-- The token without its position. -/
def Token.lexeme (t : Token) : Lexeme := ⟨t.kind, t.text⟩

/-- The tokens without their positions. -/
def lexemes (ts : List Token) : List Lexeme := ts.map Token.lexeme

namespace Lexeme

/-- A word of the language. -/
def keyword (word : String) : Lexeme := ⟨.keyword, word⟩

/-- A name. -/
def name (text : String) : Lexeme := ⟨.name, text⟩

/-- An operator. -/
def operator (symbol : String) : Lexeme := ⟨.operator, symbol⟩

def leftParen : Lexeme := ⟨.leftParen, "("⟩

def rightParen : Lexeme := ⟨.rightParen, ")"⟩

def leftBrace : Lexeme := ⟨.leftBrace, "\x7b"⟩

def rightBrace : Lexeme := ⟨.rightBrace, "\x7d"⟩

def comma : Lexeme := ⟨.comma, ","⟩

def semicolon : Lexeme := ⟨.semicolon, ";"⟩

def question : Lexeme := ⟨.question, "?"⟩

def colon : Lexeme := ⟨.colon, ":"⟩

end Lexeme

mutual

/-- The expression with all positions at the start. -/
def Expr.strip : Expr → Expr
  | .number _ x => .number .start x
  | .string _ s => .string .start s
  | .bool _ b => .bool .start b
  | .null _ => .null .start
  | .var _ name => .var .start name
  | .unary _ op operand => .unary .start op operand.strip
  | .binary _ op left right => .binary .start op left.strip right.strip
  | .conditional _ test yes no => .conditional .start test.strip yes.strip no.strip
  | .call _ callee args => .call .start callee (stripAll args)

/-- The expressions with all positions at the start. -/
def stripAll : List Expr → List Expr
  | [] => []
  | e :: es => e.strip :: stripAll es

end

/-! ## Spellings -/

/-- How an operator before an operand is spelt. -/
def UnaryOp.symbol : UnaryOp → String
  | .not => "!"
  | .negate => "-"
  | .plus => "+"

/-- Spellings with commas between them. -/
def separated : List (List Lexeme) → List Lexeme
  | [] => []
  | [w] => w
  | w :: v :: ws => w ++ .comma :: separated (v :: ws)

/-- Can an expression begin with the token? -/
def Lexeme.startsExpr (l : Lexeme) : Bool :=
  match l.kind with
  | .keyword => (keywordLiteral? ⟨.keyword, l.text, .start⟩).isSome
  | .name | .number | .string | .operator | .leftParen => true
  | _ => false

/-- The level of what is read as one operand. -/
def operandLevel : Nat := 7

/-- Written as `w`, an expression that binds at least as tightly as the level is `e`. -/
inductive Spells : Nat → List Lexeme → Expr → Prop
  | number {p : Nat} {text : String} {x : Float} (h : Number.float? text = some x) :
      Spells p [⟨.number, text⟩] (.number .start x)
  | string {p : Nat} (text : String) : Spells p [⟨.string, text⟩] (.string .start text)
  | keyword {p : Nat} {text : String} {e : Expr}
      (h : keywordLiteral? ⟨.keyword, text, .start⟩ = some e) : Spells p [.keyword text] e
  | var {p : Nat} (name : String) : Spells p [.name name] (.var .start name)
  | call {p : Nat} (callee : String) {parts : List (List Lexeme × Expr)}
      (h : ∀ part ∈ parts, Spells 0 part.1 part.2) :
      Spells p (.name callee :: .leftParen :: (separated (parts.map (·.1)) ++ [.rightParen]))
        (.call .start callee (parts.map (·.2)))
  | group {p : Nat} {w : List Lexeme} {e : Expr} (h : Spells 0 w e) :
      Spells p (.leftParen :: (w ++ [.rightParen])) e
  | unary {p : Nat} (op : UnaryOp) {w : List Lexeme} {e : Expr} (hp : p ≤ operandLevel)
      (h : Spells operandLevel w e) :
      Spells p (.operator op.symbol :: w) (.unary .start op e)
  | binary {p : Nat} (op : BinaryOp) {v w : List Lexeme} {a b : Expr} (hp : p ≤ op.precedence)
      (ha : Spells op.precedence v a) (hb : Spells (op.precedence + 1) w b) :
      Spells p (v ++ .operator op.symbol :: w) (.binary .start op a b)
  | conditional {u v w : List Lexeme} {test yes no : Expr} (ht : Spells 1 u test)
      (hy : Spells 0 v yes) (hn : Spells 0 w no) :
      Spells 0 (u ++ .question :: (v ++ .colon :: w)) (.conditional .start test yes no)

namespace Spells

variable {p q : Nat} {w : List Lexeme} {e : Expr}

/-- What binds tightly enough for one level does so for every looser one. -/
theorem mono (h : Spells p w e) (hq : q ≤ p) : Spells q w e := by
  cases h with
  | number h => exact .number h
  | string text => exact .string text
  | keyword h => exact .keyword h
  | var name => exact .var name
  | call callee h => exact .call callee h
  | group h => exact .group h
  | unary op hp h => exact .unary op (Nat.le_trans hq hp) h
  | binary op hp ha hb => exact .binary op (Nat.le_trans hq hp) ha hb
  | conditional ht hy hn =>
    obtain rfl := Nat.le_zero.1 hq
    exact .conditional ht hy hn

theorem starts (h : Spells p w e) : ∃ l v, w = l :: v ∧ l.startsExpr = true := by
  induction h with
  | keyword h => exact ⟨_, [], rfl, Option.isSome_of_eq_some h⟩
  | binary op hp ha hb iha ihb =>
    obtain ⟨l, v, rfl, hl⟩ := iha
    exact ⟨l, _, rfl, hl⟩
  | conditional ht hy hn iht ihy ihn =>
    obtain ⟨l, v, rfl, hl⟩ := iht
    exact ⟨l, _, rfl, hl⟩
  | _ => exact ⟨_, _, rfl, rfl⟩

theorem ne_nil (h : Spells p w e) : w ≠ [] := by
  obtain ⟨l, v, rfl, -⟩ := h.starts
  exact List.cons_ne_nil l v

end Spells

/-! ## Regrouping -/

/-- May an operation on three operands be grouped either way? -/
def BinaryOp.regroups : BinaryOp → Bool
  | .add | .mul | .and | .or => true
  | _ => false

/-- Expressions that differ only in how operations that regroup are grouped. -/
inductive Regrouped : Expr → Expr → Prop
  | refl (e : Expr) : Regrouped e e
  | symm {a b : Expr} (h : Regrouped a b) : Regrouped b a
  | trans {a b c : Expr} (hab : Regrouped a b) (hbc : Regrouped b c) : Regrouped a c
  | group {op : BinaryOp} (hop : op.regroups = true) (a b c : Expr) :
      Regrouped (.binary .start op (.binary .start op a b) c)
        (.binary .start op a (.binary .start op b c))
  | unary (op : UnaryOp) {a b : Expr} (h : Regrouped a b) :
      Regrouped (.unary .start op a) (.unary .start op b)
  | binary (op : BinaryOp) {a b c d : Expr} (hab : Regrouped a b) (hcd : Regrouped c d) :
      Regrouped (.binary .start op a c) (.binary .start op b d)
  | conditional {a b c d e f : Expr} (hab : Regrouped a b) (hcd : Regrouped c d)
      (hef : Regrouped e f) :
      Regrouped (.conditional .start a c e) (.conditional .start b d f)
  | call (callee : String) (before after : List Expr) {a b : Expr} (h : Regrouped a b) :
      Regrouped (.call .start callee (before ++ a :: after))
        (.call .start callee (before ++ b :: after))

end Script
end VisualBlocks

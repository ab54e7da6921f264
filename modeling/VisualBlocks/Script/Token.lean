/-!
# Tokens

A script is a sequence of tokens, each standing at a position: a line and a column, both counted
from one, the column in characters.  A token list is closed by a token of kind `endOfInput`.
-/

set_option autoImplicit false

namespace VisualBlocks
namespace Script

/-- A place in a text. -/
structure Position where
  line : Nat
  column : Nat
deriving Repr, DecidableEq, Inhabited

namespace Position

/-- Where every text begins. -/
def start : Position := ⟨1, 1⟩

/-- The place behind one character. -/
def next (p : Position) (c : Char) : Position :=
  if c = '\n' then ⟨p.line + 1, 1⟩ else ⟨p.line, p.column + 1⟩

/-- The place behind some characters. -/
def after (p : Position) (cs : List Char) : Position := cs.foldl next p

@[simp] theorem after_nil (p : Position) : p.after [] = p := rfl

@[simp] theorem after_cons (p : Position) (c : Char) (cs : List Char) :
    p.after (c :: cs) = (p.next c).after cs := rfl

/-- Positions advance piece by piece. -/
theorem after_append (p : Position) (cs ds : List Char) :
    p.after (cs ++ ds) = (p.after cs).after ds := List.foldl_append

/-- A message with the place it speaks of. -/
def locate (p : Position) (message : String) : String :=
  message ++ " (line " ++ toString p.line ++ ", column " ++ toString p.column ++ ")"

end Position

/-- The kinds of token. -/
inductive TokenKind where
  | keyword
  | name
  | number
  | string
  | operator
  | leftParen
  | rightParen
  | leftBrace
  | rightBrace
  | comma
  | semicolon
  | question
  | colon
  | endOfInput
deriving Repr, DecidableEq, Inhabited

/-- A token.  The text of a string token is its value, without quotes and escapes; that of any
other token is how it is spelt. -/
structure Token where
  kind : TokenKind
  text : String
  pos : Position
deriving Repr, DecidableEq, Inhabited

/-- The words that cannot be names. -/
def keywords : List String :=
  ["var", "let", "const", "if", "else", "while", "for", "true", "false", "null", "undefined"]

/-- The token that closes a list. -/
def Token.closing (pos : Position) : Token := ⟨.endOfInput, "", pos⟩

end Script
end VisualBlocks

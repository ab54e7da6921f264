import VisualBlocks.Text.Lines

/-!
# What generation knows of the language it writes

How comments are written, which words no name may be, and when an expression needs parentheses
inside another one.  Binding strength is an `Order`, smaller for what binds tighter.  Orders come
in classes of ten: within a class the exceptions of the language decide, between classes the order
alone.
-/

set_option autoImplicit false

namespace VisualBlocks
namespace Generation

/-- How tightly an expression binds. -/
structure Order where
  rank : Nat
deriving Repr, DecidableEq, Inhabited

namespace Order

/-- The order of what never needs parentheses. -/
def atomic : Order := ⟨0⟩

/-- The order of a place where every expression can stand. -/
def none : Order := ⟨990⟩

/-- The class of an order. -/
def tier (o : Order) : Nat := o.rank / 10

end Order

/-- The conventions of a language. -/
structure Language where
  /-- What opens a comment that ends with its line. -/
  lineMark : String
  /-- What opens a comment inside a line. -/
  opening : String
  /-- What closes a comment inside a line. -/
  closing : String
  /-- Pairs of an outer and an inner order that stand without parentheses. -/
  exempt : List (Order × Order)
  reserved : List String
deriving Repr, DecidableEq, Inhabited

/-- The characters that an identifier can hold. -/
def isNameChar (c : Char) : Bool := c.isAlphanum || c == '_'

/-- The identifier nearest to a raw name: other characters become underscores, the empty name gets
a name, a leading digit and a reserved word are set off by an underscore. -/
def safeIdentifier (reserved : List String) (raw : String) : String :=
  let name := raw.toList.map fun c => if isNameChar c then c else '_'
  let name := if name.isEmpty then "unnamed".toList else name
  let name := if name.head?.any Char.isDigit then '_' :: name else name
  let name := String.ofList name
  if reserved.contains name then name ++ "_" else name

namespace Language

/-- A line that is a comment. -/
def lineComment (l : Language) (text : String) : String := l.lineMark ++ " " ++ text ++ "\n"

/-- A mark with a blank between its characters, so that it is no mark any more. -/
def spaced (mark : String) : String := String.ofList (mark.toList.intersperse ' ')

/-- A comment inside a line.  The closing mark is broken up wherever it stands in the text, so the
comment ends where it should. -/
def inlineComment (l : Language) (text : String) : String :=
  let safe := Text.replaceAll l.closing.toList (spaced l.closing).toList text.toList
  l.opening ++ " " ++ String.ofList safe ++ " " ++ l.closing

/-- Does an expression need parentheses where the outer order is given? -/
def needsParens (l : Language) (outer inner : Order) : Bool :=
  if inner == .atomic || inner.tier < outer.tier then false
  else if outer.tier == inner.tier && (outer.tier == 0 || outer.tier == Order.none.tier) then false
  else !l.exempt.contains (outer, inner)

/-- The expression as it stands in a place of the outer order. -/
def enclose (l : Language) (outer inner : Order) (code : String) : String :=
  if l.needsParens outer inner then "(" ++ code ++ ")" else code

end Language
end Generation
end VisualBlocks

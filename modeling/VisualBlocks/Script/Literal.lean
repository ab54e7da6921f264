import VisualBlocks.Number.Layout

/-!
# Literals

How texts are spelt in a script.  `quote` puts single quotes around a text and a backslash before
what would not survive between them, so that reading the literal gives the text back.
-/

set_option autoImplicit false

namespace VisualBlocks
namespace Script

/-- The spelling of a character inside a literal. -/
def escape : Char → List Char
  | '\\' => ['\\', '\\']
  | '\'' => ['\\', '\'']
  | '\n' => ['\\', 'n']
  | '\r' => ['\\', 'r']
  | c => [c]

/-- The literal of a text. -/
def quote (text : String) : String :=
  "'" ++ String.ofList (text.toList.flatMap escape) ++ "'"

end Script
end VisualBlocks

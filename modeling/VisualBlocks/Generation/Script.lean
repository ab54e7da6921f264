import VisualBlocks.Generation.Rule
import VisualBlocks.Number.Layout
import VisualBlocks.Number.Reading
import VisualBlocks.Script.Literal
import VisualBlocks.Text.Blank

/-!
# Standard blocks as script

The language of the scripts, and the rules for the standard blocks: conditions, loops, logic,
numbers, texts and variables.  Where a rule asks for several things it does so in the order in
which they are shown on the block, which is also the order in which variables are declared.
-/

set_option autoImplicit false

namespace VisualBlocks
namespace Generation

namespace Order

/-- Access to a member. -/
def member : Order := ⟨12⟩

/-- A call. -/
def functionCall : Order := ⟨20⟩

/-- A number with a minus sign. -/
def negation : Order := ⟨43⟩

/-- A negated truth value. -/
def logicalNot : Order := ⟨44⟩

/-- A product. -/
def multiplication : Order := ⟨51⟩

/-- A quotient. -/
def division : Order := ⟨52⟩

/-- A difference. -/
def subtraction : Order := ⟨61⟩

/-- A sum, of numbers or of texts. -/
def addition : Order := ⟨62⟩

/-- A comparison by size. -/
def relational : Order := ⟨80⟩

/-- A comparison for equality. -/
def equality : Order := ⟨90⟩

/-- A conjunction. -/
def logicalAnd : Order := ⟨130⟩

/-- A disjunction. -/
def logicalOr : Order := ⟨140⟩

/-- A choice between two values. -/
def conditional : Order := ⟨150⟩

/-- The right side of an assignment. -/
def assignment : Order := ⟨160⟩

/-- An argument among others. -/
def comma : Order := ⟨180⟩

end Order

/-- The words that no variable can be called: those of the language, and the names under which a
script reaches its surroundings. -/
def scriptWords : List String :=
  ["break", "case", "catch", "class", "const", "continue", "debugger", "default", "delete", "do",
   "else", "export", "extends", "finally", "for", "function", "if", "import", "in", "instanceof",
   "new", "return", "super", "switch", "this", "throw", "try", "typeof", "var", "void", "while",
   "with", "yield", "let", "static", "true", "false", "null", "undefined", "Math", "window",
   "drawCircle"]

/-- The language of the scripts.  Calls and members chain freely, and operations that can be grouped
either way need no grouping. -/
def scriptLanguage : Language where
  lineMark := "//"
  opening := "/*"
  closing := "*/"
  exempt :=
    [(.functionCall, .member), (.functionCall, .functionCall), (.member, .member),
     (.member, .functionCall), (.logicalNot, .logicalNot),
     (.multiplication, .multiplication), (.addition, .addition), (.logicalAnd, .logicalAnd),
     (.logicalOr, .logicalOr)]
  reserved := scriptWords

namespace Standard

open Emission (value variableName freshName)

/-! ## Conditions and loops -/

/-- A statement with a body in braces. -/
def braced (head body : String) : String := head ++ " \x7b\n" ++ body ++ "\x7d"

/-- A condition and the statements under it. -/
def branch (s : Site) (n : Nat) : Emission String := do
  let condition ← value ("IF" ++ toString n) .none "false"
  let body ← s.indentedBody ("DO" ++ toString n)
  return braced ("if (" ++ condition ++ ")") body

/-- Is the branch for all other cases switched on, or filled? -/
def hasElse (s : Site) : Bool :=
  s.mutation? "else" == some "1" || s.mutation? "else" == some "true" || s.isFilled "ELSE"

/-- A condition with any number of further branches and possibly one for all other cases. -/
def controlsIf (s : Site) : Emission String := do
  let more := ((s.mutation? "elseif").bind Number.natural?).getD 0
  let branches ← (List.range (more + 1)).mapM (branch s)
  let last ← if hasElse s then
      (fun body => braced " else" body) <$> s.indentedBody "ELSE"
    else pure ""
  return String.intercalate " else " branches ++ last ++ "\n"

/-- A loop that runs its body the given number of times.  The counter gets its name after the
body, so that the loops in the body come first. -/
def repeatLoop (s : Site) (times : String) : Emission String := do
  let body ← s.indentedBody "DO"
  let c ← freshName "count"
  return braced ("for (var " ++ c ++ " = 0; " ++ c ++ " < " ++ times ++ "; " ++ c ++ "++)") body ++
    "\n"

/-- A loop whose number of runs is a value. -/
def controlsRepeatExt (s : Site) : Emission String := do
  repeatLoop s (← value "TIMES" .relational "0")

/-- A loop whose number of runs stands in a field; what is no number counts as none. -/
def controlsRepeat (s : Site) : Emission String :=
  repeatLoop s (((Number.float? (s.fieldOr "TIMES" "0")).map Number.literal).getD "0")

/-- A loop that runs while a condition holds, or until it does. -/
def controlsWhileUntil (s : Site) : Emission String := do
  let condition ←
    if s.field? "MODE" == some "UNTIL" then ("!" ++ ·) <$> value "BOOL" .logicalNot "false"
    else value "BOOL" .none "false"
  let body ← s.indentedBody "DO"
  return braced ("while (" ++ condition ++ ")") body ++ "\n"

/-! ## Logic -/

/-- An operation on the values in two inputs. -/
def binary (op : String) (order : Order) (missing : String) : Emission (String × Order) := do
  let a ← value "A" order missing
  let b ← value "B" order missing
  return (a ++ " " ++ op ++ " " ++ b, order)

/-- A comparison of two values; equality unless another one is chosen. -/
def logicCompare (s : Site) : Emission (String × Order) :=
  match s.fieldOr "OP" "EQ" with
  | "NEQ" => binary "!=" .equality "0"
  | "LT" => binary "<" .relational "0"
  | "LTE" => binary "<=" .relational "0"
  | "GT" => binary ">" .relational "0"
  | "GTE" => binary ">=" .relational "0"
  | _ => binary "==" .equality "0"

/-- A missing operand does not change what the other one gives; two missing ones are false. -/
def logicOperation (s : Site) : Emission (String × Order) :=
  if s.field? "OP" == some "OR" then binary "||" .logicalOr "false"
  else
    binary "&&" .logicalAnd (if s.isFilled "A" || s.isFilled "B" then "true" else "false")

/-- A negated truth value. -/
def logicNegate (_ : Site) : Emission (String × Order) := do
  return ("!" ++ (← value "BOOL" .logicalNot "true"), .logicalNot)

/-- A truth value; false unless true is chosen. -/
def logicBoolean (s : Site) : Emission (String × Order) :=
  pure (if s.field? "BOOL" == some "TRUE" then "true" else "false", .atomic)

/-- The value that stands for nothing. -/
def logicNull (_ : Site) : Emission (String × Order) := pure ("null", .atomic)

/-- A choice between two values. -/
def logicTernary (_ : Site) : Emission (String × Order) := do
  let condition ← value "IF" .conditional "false"
  let yes ← value "THEN" .conditional "null"
  let no ← value "ELSE" .conditional "null"
  return (condition ++ " ? " ++ yes ++ " : " ++ no, .conditional)

/-! ## Numbers -/

/-- A number; zero if the field holds none. -/
def mathNumber (s : Site) : Emission (String × Order) :=
  let x := (((s.field? "NUM").map Text.trim).bind Number.float?).getD 0
  pure (Number.literal x, if x < 0 then .negation else .atomic)

/-- A power. -/
def mathPower : Emission (String × Order) := do
  let a ← value "A" .comma "0"
  let b ← value "B" .comma "0"
  return ("Math.pow(" ++ a ++ ", " ++ b ++ ")", .functionCall)

/-- An operation on two numbers; a sum unless another one is chosen. -/
def mathArithmetic (s : Site) : Emission (String × Order) :=
  match s.fieldOr "OP" "ADD" with
  | "MINUS" => binary "-" .subtraction "0"
  | "MULTIPLY" => binary "*" .multiplication "0"
  | "DIVIDE" => binary "/" .division "0"
  | "POWER" => mathPower
  | _ => binary "+" .addition "0"

/-- An assignment to the variable of the block. -/
def assign (s : Site) (op socket : String) : Emission String := do
  let x ← value socket .assignment "0"
  let name ← variableName (s.fieldOr "VAR" "item")
  return name ++ " " ++ op ++ " " ++ x ++ ";"

/-- A change of a variable by a number. -/
def mathChange (s : Site) : Emission String := assign s "+=" "DELTA"

/-! ## Texts and variables -/

/-- A text. -/
def text (s : Site) : Emission (String × Order) :=
  pure (Script.quote (s.fieldOr "TEXT" ""), .atomic)

/-- Texts one after the other, two unless the block says how many. -/
def textJoin (s : Site) : Emission (String × Order) := do
  match ((s.mutation? "items").bind Number.natural?).getD 2 with
  | 0 => return ("''", .atomic)
  | 1 => return ("String(" ++ (← value "ADD0" .none "''") ++ ")", .functionCall)
  | n =>
    let parts ← (List.range n).mapM fun i => value ("ADD" ++ toString i) .addition "''"
    return (String.intercalate " + " parts, .addition)

/-- A statement that shows a value. -/
def textPrint (_ : Site) : Emission String := do
  return "window.alert(" ++ (← value "TEXT" .none "''") ++ ");"

/-- The value of a variable. -/
def variablesGet (s : Site) : Emission (String × Order) := do
  return (← variableName (s.fieldOr "VAR" "item"), .atomic)

/-- A new value for a variable. -/
def variablesSet (s : Site) : Emission String := assign s "=" "VALUE"

/-- The rules for the standard blocks. -/
def rules : List (String × Rule) :=
  [("controls_if", .statement controlsIf), ("controls_repeat_ext", .statement controlsRepeatExt),
   ("controls_repeat", .statement controlsRepeat),
   ("controls_whileUntil", .statement controlsWhileUntil), ("logic_compare", .value logicCompare),
   ("logic_operation", .value logicOperation), ("logic_negate", .value logicNegate),
   ("logic_boolean", .value logicBoolean), ("logic_null", .value logicNull),
   ("logic_ternary", .value logicTernary), ("math_number", .value mathNumber),
   ("math_arithmetic", .value mathArithmetic), ("math_change", .statement mathChange),
   ("text", .value text), ("text_join", .value textJoin), ("text_print", .statement textPrint),
   ("variables_get", .value variablesGet), ("variables_set", .statement variablesSet)]

/-- The generator for the standard blocks. -/
def generator : Generator := .ofRules "javascript" rules scriptLanguage

end Standard
end Generation
end VisualBlocks

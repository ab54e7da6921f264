import VisualBlocks.Schema.Registry

/-!
# Built-in block types

The declarations of the three built-in families of blocks.
-/

set_option autoImplicit false

namespace VisualBlocks
namespace Builtin

/-- A value socket with the usual literal for its kinds. -/
def value (name : String) (check : List ValueKind) : Socket :=
  ⟨name, .value check (defaultLiteralOf check)⟩

/-- A value socket with a literal of its own. -/
def valueOr (name : String) (check : List ValueKind) (default : String) : Socket :=
  ⟨name, .value check default⟩

/-- A statement socket. -/
def body (name : String) : Socket := ⟨name, .statement⟩

/-- A text field. -/
def textField (name initial : String) : Socket := ⟨name, .field (.text initial)⟩

/-- A number field. -/
def numberField (name : String) (initial : Float) : Socket := ⟨name, .field (.number initial)⟩

/-- A field with a choice. -/
def choice (name : String) (options : List (String × String)) : Socket :=
  ⟨name, .field (.dropdown options)⟩

/-- A field that names a variable. -/
def variableField (name : String) : Socket := ⟨name, .field (.variable "item")⟩

/-- The declaration of blocks that stand in chains. -/
def statementType (name : String) (messages : List String) (sockets : List Socket)
    (colour tooltip : String) : BlockType :=
  ⟨name, sockets, true, true, none, messages, colour, tooltip⟩

/-- The declaration of blocks that have a value. -/
def valueType (name : String) (messages : List String) (sockets : List Socket)
    (output : List ValueKind) (colour tooltip : String) : BlockType :=
  ⟨name, sockets, false, false, some output, messages, colour, tooltip⟩

/-- The colour of the logic blocks, by its name in the editor. -/
def logicHue : String := "%\x7bBKY_LOGIC_HUE\x7d"

/-- The colour of the loop blocks, by its name in the editor. -/
def loopsHue : String := "%\x7bBKY_LOOPS_HUE\x7d"

/-- The colour of the number blocks, by its name in the editor. -/
def mathHue : String := "%\x7bBKY_MATH_HUE\x7d"

/-- The colour of the text blocks, by its name in the editor. -/
def textsHue : String := "%\x7bBKY_TEXTS_HUE\x7d"

/-- The colour of the variable blocks, by its name in the editor. -/
def variablesHue : String := "%\x7bBKY_VARIABLES_HUE\x7d"

/-- The types of the standard blocks: conditions, loops, logic, numbers, texts and variables. -/
def standard : List BlockType :=
  [ statementType "controls_if" ["if %1", "do %1"]
      [value "IF0" [.boolean], body "DO0"]
      logicHue "If a value is true, then do some statements.",
    valueType "logic_compare" ["%1 %2 %3"]
      [value "A" [],
       choice "OP"
         [("=", "EQ"), ("≠", "NEQ"), ("<", "LT"), ("≤", "LTE"), (">", "GT"), ("≥", "GTE")],
       value "B" []]
      [.boolean] logicHue "Compare two values.",
    valueType "logic_operation" ["%1 %2 %3"]
      [value "A" [.boolean], choice "OP" [("and", "AND"), ("or", "OR")], value "B" [.boolean]]
      [.boolean] logicHue "",
    valueType "logic_negate" ["not %1"]
      [valueOr "BOOL" [.boolean] "true"]
      [.boolean] logicHue "",
    valueType "logic_boolean" ["%1"]
      [choice "BOOL" [("true", "TRUE"), ("false", "FALSE")]]
      [.boolean] logicHue "",
    valueType "logic_null" ["null"]
      []
      [] logicHue "",
    valueType "logic_ternary" ["test %1", "if true %1", "if false %1"]
      [value "IF" [.boolean], value "THEN" [], value "ELSE" []]
      [] logicHue "",
    statementType "controls_repeat_ext" ["repeat %1 times", "do %1"]
      [value "TIMES" [.number], body "DO"]
      loopsHue "",
    statementType "controls_repeat" ["repeat %1 times", "do %1"]
      [numberField "TIMES" 10, body "DO"]
      loopsHue "",
    statementType "controls_whileUntil" ["%1 %2", "do %1"]
      [choice "MODE" [("repeat while", "WHILE"), ("repeat until", "UNTIL")],
       value "BOOL" [.boolean], body "DO"]
      loopsHue "",
    valueType "math_number" ["%1"]
      [numberField "NUM" 0]
      [.number] mathHue "",
    valueType "math_arithmetic" ["%1 %2 %3"]
      [value "A" [.number],
       choice "OP"
         [("+", "ADD"), ("-", "MINUS"), ("×", "MULTIPLY"), ("÷", "DIVIDE"), ("^", "POWER")],
       value "B" [.number]]
      [.number] mathHue "",
    statementType "math_change" ["change %1 by %2"]
      [variableField "VAR", value "DELTA" [.number]]
      variablesHue "",
    valueType "text" ["%1"]
      [textField "TEXT" ""]
      [.string] textsHue "",
    valueType "text_join" ["create text with %1 %2"]
      [value "ADD0" [], value "ADD1" []]
      [.string] textsHue "",
    statementType "text_print" ["print %1"]
      [value "TEXT" []]
      textsHue "",
    valueType "variables_get" ["%1"]
      [variableField "VAR"]
      [] variablesHue "",
    statementType "variables_set" ["set %1 to %2"]
      [variableField "VAR", valueOr "VALUE" [] "0"]
      variablesHue "" ]

/-- The types of the automation blocks: steps against a business system. -/
def automation : List BlockType :=
  [ statementType "sap_login" ["log on to system %1 client %2 user %3 password %4"]
      [value "SYSTEM_ID" [.string], value "CLIENT" [.string], value "USER" [.string],
       value "PASSWORD" [.string]]
      "230" "Open a session on the given system and client.",
    statementType "sap_logout" ["log off"]
      []
      "230" "Close the current session.",
    statementType "sap_start_transaction" ["start transaction %1"]
      [value "TCODE" [.string]]
      "200" "Start a transaction by its code.",
    statementType "sap_set_field" ["set field %1 to %2"]
      [value "FIELD_ID" [.string], value "VALUE" []]
      "200" "Type a value into a screen field.",
    valueType "sap_get_field" ["value of field %1"]
      [value "FIELD_ID" [.string]]
      [.string] "200" "Read the current value of a screen field.",
    statementType "sap_press_key" ["press %1"]
      [choice "KEY"
         [("Enter", "ENTER"), ("Save", "SAVE"), ("Back", "BACK"), ("Execute (F8)", "F8"),
          ("Cancel", "CANCEL")]]
      "200" "Send a function key to the active window.",
    statementType "sap_in_table" ["in table %1", "do %1"]
      [value "TABLE_ID" [.string], body "DO"]
      "160" "Run the inner blocks against one table control.",
    statementType "sap_table_set_cell" ["set cell row %1 column %2 to %3"]
      [value "ROW" [.number], value "COLUMN" [.string], value "VALUE" []]
      "160" "Write a value into a cell of the enclosing table.",
    valueType "sap_table_row_count" ["row count"]
      []
      [.number] "160" "Number of rows in the enclosing table." ]

/-- The types of the canvas blocks. -/
def canvas : List BlockType :=
  [ statementType "draw_circle" ["draw circle at x %1 y %2 radius %3"]
      [value "X" [.number], value "Y" [.number], valueOr "RADIUS" [.number] "10"]
      "20" "Draw a filled circle on the canvas." ]

end Builtin
end VisualBlocks

import VisualBlocks.Generation.Script

/-!
# Automation blocks as comments

The automation blocks stand for calls on an engine that a script cannot reach.  A statement becomes
a comment line that holds its call.  A value becomes its call in a comment, with a literal of its
kind behind it.  What is in a table block is marked by a comment before and after it, and it stays
live.
-/

set_option autoImplicit false

namespace VisualBlocks
namespace Generation
namespace Automation

/-- A call on the engine. -/
def call (method : String) (args : List String) : String :=
  "engine." ++ method ++ "(" ++ String.intercalate ", " args ++ ")"

/-- The expressions in some inputs. -/
def arguments (s : Site) (sockets : List String) : Emission (List String) :=
  sockets.mapM fun socket => s.value socket .none

/-- The rule for a statement that stands for a call with the values of some inputs. -/
def stub (method : String) (sockets : List String) : Rule :=
  .statement fun s => do
    return s.language.lineComment (call method (← arguments s sockets) ++ ";")

/-- The rule for a value that stands for a call with the values of some inputs. -/
def valueStub (method : String) (sockets : List String) : Rule :=
  .value fun s => do
    let comment := s.language.inlineComment (call method (← arguments s sockets))
    return (comment ++ " " ++ s.outputDefault, .atomic)

/-- The comment for pressing a key, the Enter key unless another is chosen. -/
def pressKey (s : Site) : Emission String :=
  pure (s.language.lineComment (call "pressKey" [Script.quote (s.fieldOr "KEY" "ENTER")] ++ ";"))

/-- The statements inside a table block, between the comments that mark its ends. -/
def inTable (s : Site) : Emission String := do
  let table ← s.value "TABLE_ID" .none
  let body ← s.indentedBody "DO"
  let mark (word : String) : String :=
    s.language.lineComment ("--- " ++ word ++ " table " ++ table ++ " ---")
  return mark "begin" ++ body ++ mark "end"

/-- The rules for the automation blocks. -/
def rules : List (String × Rule) :=
  [("sap_login", stub "login" ["SYSTEM_ID", "CLIENT", "USER", "PASSWORD"]),
   ("sap_logout", stub "logout" []),
   ("sap_start_transaction", stub "startTransaction" ["TCODE"]),
   ("sap_set_field", stub "setField" ["FIELD_ID", "VALUE"]),
   ("sap_get_field", valueStub "getField" ["FIELD_ID"]),
   ("sap_press_key", .statement pressKey),
   ("sap_in_table", .statement inTable),
   ("sap_table_set_cell", stub "table.setCell" ["ROW", "COLUMN", "VALUE"]),
   ("sap_table_row_count", valueStub "table.rowCount" [])]

/-- A generator that knows the automation blocks too. -/
def extend (g : Generator) : Generator := g.extend "automation" rules

end Automation
end Generation
end VisualBlocks

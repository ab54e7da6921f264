import VisualBlocks.Schema.Builtin
import VisualBlocks.Toolbox.Basic

/-!
# Built-in toolboxes

The categories in which the built-in blocks are offered.
-/

set_option autoImplicit false

namespace VisualBlocks
namespace Builtin

/-- A type on offer without shadows. -/
def plain (type : String) : ToolboxEntry := ⟨type, []⟩

/-- A number as a shadow. -/
def shadowNumber (input value : String) : ShadowPreset := ⟨input, "math_number", "NUM", value⟩

/-- The categories of the standard blocks. -/
def standardCategories : List ToolboxCategory :=
  [ ⟨"Logic", logicHue,
      ["controls_if", "logic_compare", "logic_operation", "logic_negate", "logic_boolean"].map
        plain⟩,
    ⟨"Loops", loopsHue, [⟨"controls_repeat_ext", [shadowNumber "TIMES" "10"]⟩]⟩,
    ⟨"Math", mathHue, ["math_number", "math_arithmetic"].map plain⟩ ]

/-- The categories of the automation blocks. -/
def automationCategories : List ToolboxCategory :=
  [ ⟨"Session", "230", ["sap_login", "sap_logout", "sap_start_transaction"].map plain⟩,
    ⟨"Screen", "200", ["sap_set_field", "sap_get_field", "sap_press_key"].map plain⟩,
    ⟨"Tables", "160",
      [plain "sap_in_table", ⟨"sap_table_set_cell", [shadowNumber "ROW" "1"]⟩,
       plain "sap_table_row_count"]⟩,
    ⟨"Text", textsHue, [plain "text"]⟩ ]

/-- The categories of the canvas blocks. -/
def canvasCategories : List ToolboxCategory :=
  [ ⟨"Canvas", "20",
      [⟨"draw_circle",
        [shadowNumber "X" "0", shadowNumber "Y" "0", shadowNumber "RADIUS" "10"]⟩]⟩ ]

end Builtin
end VisualBlocks

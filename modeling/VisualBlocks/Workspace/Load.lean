import VisualBlocks.Text.Blank
import VisualBlocks.Workspace.FromJson
import VisualBlocks.Workspace.FromXml

/-!
# Loading a workspace

A workspace file is XML if the first character that is not white space opens a tag, and JSON
otherwise.
-/

set_option autoImplicit false

namespace VisualBlocks
namespace Workspace

/-- Does the text look like XML? -/
def opensWithTag (text : String) : Bool :=
  (text.toList.dropWhile Text.isBlank).head? == some '<'

/-- The workspace that a text in either format describes. -/
def ofText (text : String) : Except LoadError Workspace :=
  if opensWithTag text then ofXmlText text else ofJsonText text

end Workspace
end VisualBlocks

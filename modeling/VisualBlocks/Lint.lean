import VisualBlocks.Schema.Registry
import VisualBlocks.Workspace.Basic

/-!
# Checking a workspace

A workspace can hold blocks of any type with anything in them; generation makes the best of it.
`Lint.findings` compares the blocks with the declared types and says what does not fit: unknown
types, fields and inputs that are not declared, blocks of the wrong shape in an input, and table
cells outside a table.

A block that has changed its shape has numbered copies of declared sockets, `IF1` for `IF0`, so a
numbered input counts as declared if a socket with the same stem is.
-/

set_option autoImplicit false

namespace VisualBlocks
namespace Lint

/-- What does not fit. -/
inductive Finding where
  | unknownType (type : String)
  | undeclaredField (field type : String)
  | undeclaredInput (input type : String)
  /-- A block of a type sits in an input of the other shape. -/
  | shapeMismatch (type child : String) (wantsValue : Bool) (input : String)
  | outsideTable (type : String)
deriving Repr, DecidableEq, Inhabited

/-- The wording of a finding. -/
def Finding.message : Finding → String
  | .unknownType type => "unknown block type '" ++ type ++ "'"
  | .undeclaredField field type => "field '" ++ field ++ "' is not declared by '" ++ type ++ "'"
  | .undeclaredInput input type => "input '" ++ input ++ "' is not declared by '" ++ type ++ "'"
  | .shapeMismatch type child wantsValue input =>
    "'" ++ type ++ "' block '" ++ child ++ "' plugged into " ++
      (if wantsValue then "value" else "statement") ++ " input '" ++ input ++ "'"
  | .outsideTable type => "'" ++ type ++ "' used outside a table block"

/-- A finding and the block it is about. -/
structure Warning where
  block : String
  finding : Finding
deriving Repr, DecidableEq, Inhabited

/-- The wording of a warning. -/
def Warning.text (w : Warning) : String := "block '" ++ w.block ++ "': " ++ w.finding.message

/-! ## Sockets -/

/-- The name without the digits at its end. -/
def stem (name : String) : List Char := (name.toList.reverse.dropWhile Char.isDigit).reverse

/-- Does the name end in a digit? -/
def isNumbered (name : String) : Bool := (stem name).length < name.length

/-- The socket that an input goes by: its own, or for a numbered input the first with its stem. -/
def socketFor? (t : BlockType) (name : String) : Option Socket :=
  (t.socket? name).or
    (if isNumbered name then t.sockets.find? fun s => stem s.name == stem name else none)

/-- The findings about a field. -/
def fieldFindings (t : BlockType) (name : String) : List Finding :=
  if (t.socket? name).any Socket.isField then [] else [.undeclaredField name t.name]

/-- The findings about an input.  An input without a number that is not declared, such as `ELSE`,
is admitted on a block that has changed its shape. -/
def inputFindings (w : Workspace) (r : Registry) (t : BlockType) (b : Block)
    (name child : String) : List Finding :=
  match socketFor? t name with
  | none => if isNumbered name || b.mutation.isEmpty then [.undeclaredInput name t.name] else []
  | some socket =>
    match (w.get? child).bind fun c => r.get? c.type with
    | none => []
    | some held =>
      if socket.isValue == held.producesValue then []
      else [.shapeMismatch held.name child socket.isValue name]

/-! ## Tables -/

/-- The types whose blocks are about a cell or a row of the table around them. -/
def tableTypes : List String := ["sap_table_set_cell", "sap_table_row_count"]

/-- The types of table blocks. -/
def containerTypes : List String := ["sap_in_table"]

/-- Is there a table block above the block, whether around it or before it in a chain? -/
def isBelowTable (w : Workspace) (b : Block) : Bool :=
  match b.parent with
  | none => false
  | some p => (w.ascent p.id).any fun id =>
      (w.get? id).any fun above => containerTypes.contains above.type

/-! ## Findings -/

/-- The findings about a block: its fields, then its inputs, then its place. -/
def blockFindings (w : Workspace) (r : Registry) (checkTables : Bool) (b : Block) :
    List Finding :=
  match r.get? b.type with
  | none => [.unknownType b.type]
  | some t =>
    b.fields.names.flatMap (fieldFindings t) ++
    b.inputs.entries.flatMap (fun e => inputFindings w r t b e.1 e.2) ++
    if checkTables && tableTypes.contains b.type && !isBelowTable w b then [.outsideTable b.type]
    else []

/-- The warnings about all blocks, in order of their creation. -/
def findings (w : Workspace) (r : Registry) (checkTables : Bool) : List Warning :=
  w.blocks.flatMap fun b => (blockFindings w r checkTables b).map (⟨b.id, ·⟩)

end Lint
end VisualBlocks

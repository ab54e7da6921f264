import VisualBlocks.Json.Number
import VisualBlocks.Number.Reading
import VisualBlocks.Schema.BlockType
import VisualBlocks.Schema.Fault
import VisualBlocks.Text.Blank
import VisualBlocks.Text.DecimalDigit

/-!
# Descriptors

A block type can be declared by a JSON object.  Its members `message0`, `message1`, … are the lines
shown on the block, up to the first that is missing, and each line has its arguments in `args0`,
`args1`, ….  A message refers to the arguments of its line by number, with a percent sign in front:
every placeholder has its argument, and every argument its placeholder.
-/

set_option autoImplicit false

namespace VisualBlocks
namespace Descriptor

/-- The numbers of the placeholders in a message: runs of decimal digits of any script after a
percent sign.  Only ASCII digits make a number; other runs, and numbers too large, count as zero. -/
def placeholders : List Char → List Nat
  | [] => []
  | c :: cs =>
    let digits := cs.takeWhile Text.isDecimalDigit
    if c = '%' ∧ digits ≠ [] then
      (Number.natural? (String.ofList digits)).getD 0 :: placeholders (cs.drop digits.length)
    else placeholders cs
termination_by cs => cs.length
decreasing_by
  · simp only [List.length_drop, List.length_cons]; omega
  · simp

/-- The kinds that a check names. -/
def readCheck : Json → List ValueKind
  | .string s => [.ofName s]
  | .array items => items.filterMap fun j => j.string?.map ValueKind.ofName
  | _ => []

/-- The text member of an argument, empty if it is missing. -/
def textAt (j : Json) (name : String) (ifMissing : String) : String :=
  (j.stringAt? name).getD ifMissing

/-- The literal given for an empty value socket, if one is. -/
def givenDefault? (arg : Json) : Option String :=
  match arg.get? "default" with
  | some (.string s) => some s
  | some (.bool b) => some (if b then "true" else "false")
  | some j => Json.numberText? j
  | none => none

/-- The choices of a dropdown: pairs of a label and a value, each a text. -/
def readOptions (arg : Json) : List (String × String) :=
  (((arg.get? "options").bind Json.array?).getD []).filterMap fun j =>
    match j with
    | .array (.string label :: .string value :: _) => some (label, value)
    | _ => none

/-- What an argument adds to the block; nothing if it is there for the layout only. -/
def socketKind? (arg : Json) (kind : String) (name : Option String) :
    Except DeclarationFault (Option SocketKind) :=
  match kind with
  | "input_dummy" => .ok none
  | "input_end_row" => .ok none
  | "input_value" =>
    let check := ((arg.get? "check").map readCheck).getD []
    .ok (some (.value check ((givenDefault? arg).getD (defaultLiteralOf check))))
  | "input_statement" => .ok (some .statement)
  | "field_input" => .ok (some (.field (.text (textAt arg "text" ""))))
  | "field_multilinetext" => .ok (some (.field (.text (textAt arg "text" ""))))
  | "field_number" => .ok (some (.field (.number (((arg.get? "value").bind Json.float?).getD 0))))
  | "field_dropdown" =>
    match readOptions arg with
    | [] => .error (.emptyDropdown name)
    | options => .ok (some (.field (.dropdown options)))
  | "field_checkbox" =>
    .ok (some (.field (.checkbox (((arg.get? "checked").bind Json.bool?).getD false))))
  | "field_variable" => .ok (some (.field (.variable (textAt arg "variable" "item"))))
  | "field_label" => .ok (name.map fun _ => .field (.label (textAt arg "text" "")))
  | "field_label_serializable" => .ok (name.map fun _ => .field (.label (textAt arg "text" "")))
  | _ => .error (.unsupportedArgument kind)

/-- The socket of an argument, if it has one.  A socket has a name. -/
def socket? (arg : Json) : Except DeclarationFault (Option Socket) := do
  let kind := textAt arg "type" ""
  let name := arg.stringAt? "name"
  match ← socketKind? arg kind name with
  | none => return none
  | some k =>
    match name with
    | none => throw (.nameMissing kind)
    | some "" => throw (.nameMissing kind)
    | some name => return some ⟨name, k⟩

/-- Makes sure that the placeholders of a message and the arguments of its line match. -/
def checkLine (line : Nat) (message : String) (args : List Json) :
    Except DeclarationFault Unit := do
  let indices := placeholders message.toList
  match indices.find? fun i => i = 0 || args.length < i with
  | some index => throw (.placeholder line index)
  | none =>
    let referenced := indices.eraseDups.length
    if referenced ≠ args.length then throw (.unreferenced line referenced args.length)

/-- The messages from a line on, and the sockets of their arguments.  There are no more lines than
members of the descriptor. -/
def readLines (desc : Json) : Nat → Nat → Except DeclarationFault (List String × List Socket)
  | 0, _ => .ok ([], [])
  | fuel + 1, line =>
    match desc.stringAt? ("message" ++ toString line) with
    | none => .ok ([], [])
    | some message => do
      let args := ((desc.get? ("args" ++ toString line)).bind Json.array?).getD []
      checkLine line message args
      let sockets ← args.mapM socket?
      let (messages, more) ← readLines desc fuel (line + 1)
      return (message :: messages, sockets.filterMap id ++ more)

/-- The colour: a text, or a number as it is written. -/
def readColour (desc : Json) : String :=
  match desc.get? "colour" with
  | some (.string s) => s
  | some j => (Json.numberText? j).getD ""
  | none => ""

/-- The kinds of the value, if the type has one. -/
def readOutput (desc : Json) : Option (List ValueKind) := (desc.get? "output").map readCheck

end Descriptor

/-- The block type that a descriptor declares. -/
def BlockType.ofJson (desc : Json) : Except DeclarationError BlockType :=
  match desc.object? with
  | none => .error ⟨none, .notAnObject⟩
  | some members =>
    match (desc.stringAt? "type").filter fun name => !Text.isBlankText name with
    | none => .error ⟨none, .typeMissing⟩
    | some name =>
      match Descriptor.readLines desc members.length 0 with
      | .error fault => .error ⟨some name, fault⟩
      | .ok (messages, sockets) =>
        .ok {
          name, sockets, messages
          acceptsPrevious := (desc.get? "previousStatement").isSome
          acceptsNext := (desc.get? "nextStatement").isSome
          output := Descriptor.readOutput desc
          colour := Descriptor.readColour desc
          tooltip := Descriptor.textAt desc "tooltip" "" }

end VisualBlocks

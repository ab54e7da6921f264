/-!
# Faults in declarations

Why a declaration of block types is refused, with the type it is about where one is known.
-/

set_option autoImplicit false

namespace VisualBlocks

/-- What is wrong with a declaration. -/
inductive DeclarationFault where
  | notJson
  | notDescriptors
  | notAnObject
  | typeMissing
  /-- A placeholder of a message points outside the arguments of its line. -/
  | placeholder (line index : Nat)
  /-- A message refers to fewer arguments than its line has. -/
  | unreferenced (line referenced total : Nat)
  | emptyDropdown (name : Option String)
  | unsupportedArgument (kind : String)
  | nameMissing (kind : String)
  | alreadyRegistered
  | repeatedSocket (name : String)
deriving Repr, DecidableEq, Inhabited

/-- The wording of a fault. -/
def DeclarationFault.message : DeclarationFault → String
  | .notJson => "Invalid block descriptor JSON"
  | .notDescriptors => "Block descriptors must be a JSON array or object."
  | .notAnObject => "Block descriptor must be a JSON object."
  | .typeMissing => "Block descriptor missing 'type'."
  | .placeholder line index =>
    "message" ++ toString line ++ " placeholder %" ++ toString index ++
      " has no matching argument in args" ++ toString line ++ "."
  | .unreferenced line referenced total =>
    "message" ++ toString line ++ " references " ++ toString referenced ++ " of " ++
      toString total ++ " arguments in args" ++ toString line ++ "."
  | .emptyDropdown name => "Dropdown '" ++ name.getD "?" ++ "' has no options."
  | .unsupportedArgument kind => "Unsupported argument type '" ++ kind ++ "'."
  | .nameMissing kind => "Argument of type '" ++ kind ++ "' missing 'name'."
  | .alreadyRegistered => "type is already registered."
  | .repeatedSocket name => "socket name '" ++ name ++ "' is used more than once."

/-- A fault and the block type it is about. -/
structure DeclarationError where
  type : Option String
  fault : DeclarationFault
deriving Repr, DecidableEq, Inhabited

/-- The wording of an error. -/
def DeclarationError.message (e : DeclarationError) : String :=
  match e.type with
  | none => e.fault.message
  | some type => "Block type '" ++ type ++ "': " ++ e.fault.message

end VisualBlocks

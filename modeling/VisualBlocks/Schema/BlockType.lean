/-!
# Block types

What is declared of a type of blocks: its sockets in the order in which they are shown, the
connections it offers, and how it is presented.  A socket takes a value, takes a chain of
statements, or is a field that the user fills in.
-/

set_option autoImplicit false

namespace VisualBlocks

/-- A kind of values. -/
inductive ValueKind where
  | string
  | number
  | boolean
  | other (name : String)
deriving Repr, DecidableEq, Inhabited

/-- The kind of a name. -/
def ValueKind.ofName : String → ValueKind
  | "String" => .string
  | "Number" => .number
  | "Boolean" => .boolean
  | name => .other name

/-- The literal that stands in for a missing value of the kind. -/
def ValueKind.defaultLiteral : ValueKind → String
  | .string => "''"
  | .number => "0"
  | .boolean => "false"
  | .other _ => "null"

/-- The literal that stands in for a missing value of the first of some kinds; of none, the empty
text. -/
def defaultLiteralOf (check : List ValueKind) : String :=
  (check.head?.map ValueKind.defaultLiteral).getD "''"

/-- What a field looks like, and what stands in it at first. -/
inductive FieldWidget where
  | text (initial : String)
  | number (initial : Float)
  | dropdown (options : List (String × String))
  | checkbox (checked : Bool)
  | variable (initial : String)
  | label (text : String)
deriving Repr, BEq, Inhabited

/-- What a socket takes.  A value socket lists the kinds it accepts, and has the literal that
stands in when it is empty. -/
inductive SocketKind where
  | value (check : List ValueKind) (default : String)
  | statement
  | field (widget : FieldWidget)
deriving Repr, BEq, Inhabited

/-- A named place on a block. -/
structure Socket where
  name : String
  kind : SocketKind
deriving Repr, BEq, Inhabited

namespace Socket

/-- Does the socket take a value? -/
def isValue (s : Socket) : Bool :=
  match s.kind with
  | .value _ _ => true
  | _ => false

/-- Does the socket take a chain of statements? -/
def isStatement (s : Socket) : Bool :=
  match s.kind with
  | .statement => true
  | _ => false

/-- Is the socket a field? -/
def isField (s : Socket) : Bool :=
  match s.kind with
  | .field _ => true
  | _ => false

/-- The literal that stands in when a value socket is empty. -/
def default? (s : Socket) : Option String :=
  match s.kind with
  | .value _ default => some default
  | _ => none

end Socket

/-- The declaration of a type of blocks.  `output` lists the kinds of its value, if it has one; an
empty list leaves the kind open. -/
structure BlockType where
  name : String
  sockets : List Socket
  acceptsPrevious : Bool
  acceptsNext : Bool
  output : Option (List ValueKind)
  messages : List String
  colour : String
  tooltip : String
deriving Repr, BEq, Inhabited

namespace BlockType

/-- The socket of a name. -/
def socket? (t : BlockType) (name : String) : Option Socket :=
  t.sockets.find? fun s => s.name == name

/-- Do the blocks have a value? -/
def producesValue (t : BlockType) : Bool := t.output.isSome

/-- Can the blocks stand in a chain? -/
def isStatement (t : BlockType) : Bool := t.acceptsPrevious || t.acceptsNext

/-- The literal that stands in for the value of a block, where it has a value of a known kind. -/
def outputLiteral? (t : BlockType) : Option String :=
  (t.output.bind List.head?).map ValueKind.defaultLiteral

end BlockType
end VisualBlocks

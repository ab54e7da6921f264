import VisualBlocks.Proofs.Generation.BlockTree
import VisualBlocks.Proofs.Generation.Spelling

/-!
# What value blocks mean

`BlockTree.expr names t` is the expression that a tree of standard value blocks stands for, said
without any text: each block is its operator or call on the expressions in its inputs, an empty
input is the expression of the literal that stands in for it, and a leaf is the expression of its
own literal.  `names` gives the name that each variable has in the program.
-/

set_option autoImplicit false

namespace VisualBlocks

open Script
open Generation (ofLiteral)

/-- The standard types of blocks that have a value. -/
def valueTypes : List String :=
  ["logic_compare", "logic_operation", "logic_negate", "logic_boolean", "logic_null",
   "logic_ternary", "math_number", "math_arithmetic", "text", "text_join", "variables_get"]

namespace BlockTree

/-! ## One block -/

/-- The comparison that a field names; equality unless it names another one. -/
def comparison : String → BinaryOp
  | "NEQ" => .ne
  | "LT" => .lt
  | "LTE" => .le
  | "GT" => .gt
  | "GTE" => .ge
  | _ => .eq

/-- The operation on numbers that a field names; a sum unless it names another one. -/
def arithmetic (op : String) (a b : Expr) : Expr :=
  match op with
  | "MINUS" => .binary .start .sub a b
  | "MULTIPLY" => .binary .start .mul a b
  | "DIVIDE" => .binary .start .div a b
  | "POWER" => .call .start "Math.pow" [a, b]
  | _ => .binary .start .add a b

/-- Texts one after the other: none, one made a text, or a sum grouped from the left. -/
def joined : List Expr → Expr
  | [] => .string .start ""
  | [x] => .call .start "String" [x]
  | x :: rest => rest.foldl (.binary .start .add) x

/-- What stands in an input, given the expressions of the inputs that are filled. -/
def operand (filled : List (String × Expr)) (socket default : String) : Expr :=
  (filled.lookup socket).getD (ofLiteral default)

/-- The number in a field; zero if it holds none. -/
def numberIn (field : Option String) : Float :=
  ((field.map Text.trim).bind Number.float?).getD 0

/-- How many texts a block joins; two unless it says so. -/
def joinCount (mutation : Table String) : Nat :=
  ((mutation.get? "items").bind Number.natural?).getD 2

/-- The expression of a block, given the expressions of the inputs that are filled. -/
def meaning (names : String → String) (type : String) (fields mutation : Table String)
    (filled : List (String × Expr)) : Expr :=
  match type with
  | "logic_compare" =>
    .binary .start (comparison ((fields.get? "OP").getD "EQ")) (operand filled "A" "0")
      (operand filled "B" "0")
  | "logic_operation" =>
    if fields.get? "OP" = some "OR" then
      .binary .start .or (operand filled "A" "false") (operand filled "B" "false")
    else
      let missing :=
        if (filled.lookup "A").isSome || (filled.lookup "B").isSome then "true" else "false"
      .binary .start .and (operand filled "A" missing) (operand filled "B" missing)
  | "logic_negate" => .unary .start .not (operand filled "BOOL" "true")
  | "logic_boolean" => .bool .start (fields.get? "BOOL" = some "TRUE")
  | "logic_null" => .null .start
  | "logic_ternary" =>
    .conditional .start (operand filled "IF" "false") (operand filled "THEN" "null")
      (operand filled "ELSE" "null")
  | "math_number" => ofLiteral (Number.literal (numberIn (fields.get? "NUM")))
  | "math_arithmetic" =>
    arithmetic ((fields.get? "OP").getD "ADD") (operand filled "A" "0") (operand filled "B" "0")
  | "text" => .string .start ((fields.get? "TEXT").getD "")
  | "text_join" =>
    joined ((List.range (joinCount mutation)).map fun i => operand filled ("ADD" ++ toString i) "''")
  | "variables_get" => .var .start (names ((fields.get? "VAR").getD "item"))
  | _ => .null .start

/-! ## Whole trees -/

mutual

/-- The expression of a tree. -/
def expr (names : String → String) : BlockTree → Expr
  | mk _ type fields mutation inputs _ =>
    meaning names type fields mutation (inputExprs names inputs)

/-- The expressions in the inputs. -/
def inputExprs (names : String → String) : List (String × BlockTree) → List (String × Expr)
  | [] => []
  | (socket, t) :: rest => (socket, t.expr names) :: inputExprs names rest

end

theorem expr_eq (names : String → String) (t : BlockTree) :
    t.expr names = meaning names t.type t.fields t.mutation (inputExprs names t.inputs) := by
  obtain ⟨id, type, fields, mutation, inputs, next⟩ := t
  rw [expr]
  rfl

theorem lookup_inputExprs (names : String → String) (t : BlockTree) (socket : String) :
    (inputExprs names t.inputs).lookup socket = (t.input? socket).map (expr names) := by
  rw [input?]
  induction t.inputs with
  | nil => rfl
  | cons e es ih =>
    obtain ⟨name, c⟩ := e
    rw [inputExprs, List.lookup_cons, List.lookup_cons, ih]
    cases socket == name <;> rfl

/-- What stands in an input of a tree. -/
def operandIn (t : BlockTree) (names : String → String) (socket default : String) : Expr :=
  operand (inputExprs names t.inputs) socket default

theorem operandIn_filled {t c : BlockTree} {socket : String} (h : t.input? socket = some c)
    (names : String → String) (default : String) :
    t.operandIn names socket default = c.expr names := by
  rw [operandIn, operand, lookup_inputExprs, h]
  rfl

theorem operandIn_empty {t : BlockTree} {socket : String} (h : t.input? socket = none)
    (names : String → String) (default : String) :
    t.operandIn names socket default = ofLiteral default := by
  rw [operandIn, operand, lookup_inputExprs, h]
  rfl

/-- Are all blocks of the tree standard value blocks? -/
def Standard (t : BlockTree) : Prop := ∀ b ∈ t.blocks, b.2.type ∈ valueTypes

theorem Standard.part {t c : BlockTree} (h : t.Standard) (hc : c.IsPart t) : c.Standard :=
  fun b hb => h b (hc.subset b hb)

theorem Standard.type_mem {t : BlockTree} (h : t.Standard) : t.type ∈ valueTypes :=
  h _ t.self_mem_blocks

end BlockTree
end VisualBlocks

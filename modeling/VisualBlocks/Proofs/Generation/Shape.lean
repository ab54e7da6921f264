import VisualBlocks.Proofs.Generation.Meaning
import VisualBlocks.Proofs.Script.Outline

/-!
# What statement blocks are

`BlockTree.outlines known t` is the form of the program for a chain of blocks, said without any
text: which statement each block is, with the chains in its inputs as the bodies of the statement.
Blocks of types that are not `known` are nothing, and so are the steps of the automation blocks; a
table block is what stands in it.
-/

set_option autoImplicit false

namespace VisualBlocks

open Script

/-- The types of automation blocks that have a value. -/
def stubTypes : List String := ["sap_get_field", "sap_table_row_count"]

/-- The types of blocks that do something outside the program. -/
def effectTypes : List String := ["text_print", "draw_circle"]

namespace BlockTree

/-- How many conditions a block has beyond the first one. -/
def furtherBranches (mutation : Table String) : Nat :=
  ((mutation.get? "elseif").bind Number.natural?).getD 0

/-- The body in an input, given the bodies of the inputs that are filled. -/
def bodyIn (bodies : List (String × List Outline)) (socket : String) : List Outline :=
  (bodies.lookup socket).getD []

/-- The form of a block, given the bodies of the inputs that are filled. -/
def shape (type : String) (mutation : Table String) (bodies : List (String × List Outline)) :
    List Outline :=
  match type with
  | "controls_if" =>
    [.ifElse
      ((List.range (furtherBranches mutation + 1)).map fun i => bodyIn bodies ("DO" ++ toString i))
      (bodyIn bodies "ELSE")]
  | "controls_repeat_ext" | "controls_repeat" => [.forLoop (bodyIn bodies "DO")]
  | "controls_whileUntil" => [.whileLoop (bodyIn bodies "DO")]
  | "variables_set" | "math_change" => [.assign]
  | "text_print" | "draw_circle" => [.expr]
  | "sap_in_table" => bodyIn bodies "DO"
  | other => if other ∈ valueTypes ++ stubTypes then [.expr] else []

mutual

/-- The forms of a chain of blocks. -/
def outlines (known : String → Bool) : BlockTree → List Outline
  | mk _ type _ mutation inputs next =>
    (if known type then shape type mutation (inputOutlines known inputs) else []) ++
      nextOutlines known next

/-- The forms of the chains in the inputs. -/
def inputOutlines (known : String → Bool) :
    List (String × BlockTree) → List (String × List Outline)
  | [] => []
  | (socket, t) :: rest => (socket, t.outlines known) :: inputOutlines known rest

/-- The forms of what follows. -/
def nextOutlines (known : String → Bool) : Option BlockTree → List Outline
  | none => []
  | some t => t.outlines known

end

variable {known : String → Bool}

/-- The forms of the first block of a chain. -/
def ownOutlines (known : String → Bool) (t : BlockTree) : List Outline :=
  if known t.type then shape t.type t.mutation (inputOutlines known t.inputs) else []

theorem outlines_eq (t : BlockTree) :
    t.outlines known = t.ownOutlines known ++ nextOutlines known t.next := by
  obtain ⟨id, type, fields, mutation, inputs, next⟩ := t
  rw [outlines]
  rfl

/-- The forms of the chain in an input. -/
def bodyOutlines (known : String → Bool) (t : BlockTree) (socket : String) : List Outline :=
  bodyIn (inputOutlines known t.inputs) socket

theorem bodyOutlines_eq (t : BlockTree) (socket : String) :
    t.bodyOutlines known socket = nextOutlines known (t.input? socket) := by
  rw [bodyOutlines, bodyIn, input?]
  induction t.inputs with
  | nil => rfl
  | cons e es ih =>
    obtain ⟨name, c⟩ := e
    rw [inputOutlines, List.lookup_cons, List.lookup_cons]
    cases socket == name
    · exact ih
    · rfl

/-- Has the tree no block that does something outside the program? -/
def Quiet (t : BlockTree) : Prop := ∀ b ∈ t.blocks, b.2.type ∉ effectTypes

theorem Quiet.part {t c : BlockTree} (h : t.Quiet) (hc : c.IsPart t) : c.Quiet :=
  fun b hb => h b (hc.subset b hb)

theorem Quiet.type_not_mem {t : BlockTree} (h : t.Quiet) : t.type ∉ effectTypes :=
  h _ t.self_mem_blocks

end BlockTree
end VisualBlocks

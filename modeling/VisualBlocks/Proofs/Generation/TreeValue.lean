import VisualBlocks.Proofs.Generation.Composition
import VisualBlocks.Proofs.Generation.Meaning
import VisualBlocks.Proofs.Number.RoundTrip
import VisualBlocks.Proofs.Script.Renaming

/-!
# The values of trees

`BlockTree.value ρ t` is the value of a tree of standard value blocks, from the bottom up and
without any expression: each block applies its operator to the values in its inputs.  `ρ` gives the
values of the variables.

* The expression of a tree has the value of the tree (`BlockTree.value_expr`), if its numbers are
  what their texts say.
* The names of the variables are all that the expression takes from the pass
  (`BlockTree.expr_rename`), and the functions that it calls are built in
  (`BlockTree.inScope_expr`).
-/

set_option autoImplicit false

namespace VisualBlocks

open Script
open Generation (ofLiteral ofLiteral_unsigned ofLiteral_minus ofMagnitude_numeral callees_ofLiteral)

namespace BlockTree

/-- What stands in an input: the value of what fills it, or the one that stands in. -/
def valueIn (filled : List (String × Value)) (socket : String) (missing : Value) : Value :=
  (filled.lookup socket).getD missing

/-- The value of an operation on numbers that a field names; a sum unless it names another one. -/
def calculated (op : String) (a b : Value) : Value :=
  match op with
  | "MINUS" => .binary .sub a b
  | "MULTIPLY" => .binary .mul a b
  | "DIVIDE" => .binary .div a b
  | "POWER" => (builtin? "Math.pow" [a, b]).getD .undefined
  | _ => .binary .add a b

/-- The value of texts one after the other: they are summed up from the left. -/
def summedUp : List Value → Value
  | [] => .string ""
  | [x] => (builtin? "String" [x]).getD .undefined
  | x :: rest => rest.foldl (.binary .add) x

/-- The value of a block, given the values in the inputs that are filled. -/
def outcome (ρ : String → Value) (type : String) (fields mutation : Table String)
    (filled : List (String × Value)) : Value :=
  match type with
  | "logic_compare" =>
    .binary (comparison ((fields.get? "OP").getD "EQ")) (valueIn filled "A" (.number 0))
      (valueIn filled "B" (.number 0))
  | "logic_operation" =>
    if fields.get? "OP" = some "OR" then
      .binary .or (valueIn filled "A" (.bool false)) (valueIn filled "B" (.bool false))
    else
      let missing := .bool ((filled.lookup "A").isSome || (filled.lookup "B").isSome)
      .binary .and (valueIn filled "A" missing) (valueIn filled "B" missing)
  | "logic_negate" => .unary .not (valueIn filled "BOOL" (.bool true))
  | "logic_boolean" => .bool (fields.get? "BOOL" = some "TRUE")
  | "logic_null" => .null
  | "logic_ternary" =>
    if (valueIn filled "IF" (.bool false)).truthy then valueIn filled "THEN" .null
    else valueIn filled "ELSE" .null
  | "math_number" => .number (numberIn (fields.get? "NUM"))
  | "math_arithmetic" =>
    calculated ((fields.get? "OP").getD "ADD") (valueIn filled "A" (.number 0))
      (valueIn filled "B" (.number 0))
  | "text" => .string ((fields.get? "TEXT").getD "")
  | "text_join" =>
    summedUp ((List.range (joinCount mutation)).map fun i =>
      valueIn filled ("ADD" ++ toString i) (.string ""))
  | "variables_get" => ρ ((fields.get? "VAR").getD "item")
  | _ => .null

mutual

/-- The value of a tree. -/
def value (ρ : String → Value) : BlockTree → Value
  | mk _ type fields mutation inputs _ => outcome ρ type fields mutation (inputValues ρ inputs)

/-- The values in the inputs. -/
def inputValues (ρ : String → Value) : List (String × BlockTree) → List (String × Value)
  | [] => []
  | (socket, t) :: rest => (socket, t.value ρ) :: inputValues ρ rest

end

/-! ## The numbers of a tree -/

/-- Are all numbers in the fields of the tree finite? -/
def Finite (t : BlockTree) : Prop :=
  ∀ b ∈ t.blocks, b.2.type = "math_number" → (numberIn (b.2.fields.get? "NUM")).isFinite = true

theorem Finite.part {t c : BlockTree} (h : t.Finite) (hc : c.IsPart t) : c.Finite :=
  fun b hb => h b (hc.subset b hb)

/-- Are all numbers in the fields of the tree what their texts say? -/
def Legible (t : BlockTree) : Prop :=
  ∀ b ∈ t.blocks, b.2.type = "math_number" → Number.Legible (numberIn (b.2.fields.get? "NUM"))

theorem Legible.part {t c : BlockTree} (h : t.Legible) (hc : c.IsPart t) : c.Legible :=
  fun b hb => h b (hc.subset b hb)

/-! ## The value of the expression -/

theorem lookup_map {α : Type} (f : Expr → α) (filled : List (String × Expr)) (socket : String) :
    (filled.map fun e => (e.1, f e.2)).lookup socket = (filled.lookup socket).map f := by
  induction filled with
  | nil => rfl
  | cons e es ih =>
    obtain ⟨name, x⟩ := e
    rw [List.map_cons, List.lookup_cons, List.lookup_cons, ih]
    cases socket == name <;> rfl

section Value

variable (ρ : String → Value) (filled : List (String × Expr))

/-- What stands in an input has its value, if the literal has the value that stands in. -/
theorem value_operand (socket : String) {default : String} {missing : Value}
    (hmissing : (ofLiteral default).value ρ = missing) :
    (operand filled socket default).value ρ =
      valueIn (filled.map fun e => (e.1, e.2.value ρ)) socket missing := by
  rw [operand, valueIn, lookup_map]
  cases filled.lookup socket with
  | none => exact hmissing
  | some e => rfl

theorem value_zero : (ofLiteral "0").value ρ = .number 0 := by
  show Value.number ((Number.float? "0").getD 0) = .number 0
  rfl

/-- The text of a number has the number for its value. -/
theorem value_literal {x : Float} (h : Number.Legible x) :
    (ofLiteral (Number.literal x)).value ρ = .number x := by
  obtain ⟨cs, y, hnumeral, hread, hform⟩ := h.literal_eq
  have hmagnitude := ofMagnitude_numeral hnumeral ((Number.float?_numeral hnumeral).trans hread)
  obtain ⟨htext, rfl⟩ | ⟨htext, rfl⟩ := hform
  · obtain ⟨c, ds, hlead, hc⟩ := hnumeral.starts
    have hminus : c ≠ '-' := by
      rintro rfl
      exact absurd hc (by decide)
    rw [← htext, String.ofList_toList] at hmagnitude
    rw [ofLiteral_unsigned (htext.trans hlead) hminus, hmagnitude]
    rfl
  · rw [ofLiteral_minus htext, hmagnitude]
    rfl

theorem value_arithmetic (op : String) (a b : Expr) :
    (arithmetic op a b).value ρ = calculated op (a.value ρ) (b.value ρ) := by
  rw [arithmetic.eq_def]
  split
  · rfl
  · rfl
  · rfl
  · rfl
  · rw [calculated]
    · rfl
    all_goals assumption

theorem value_foldl (es : List Expr) (a : Expr) :
    (es.foldl (.binary .start .add) a).value ρ =
      (es.map (Expr.value ρ)).foldl (.binary .add) (a.value ρ) := by
  induction es generalizing a with
  | nil => rfl
  | cons e es ih => rw [List.foldl_cons, ih, List.map_cons, List.foldl_cons, Expr.value]

theorem value_joined (es : List Expr) :
    (joined es).value ρ = summedUp (es.map (Expr.value ρ)) := by
  match es with
  | [] => rfl
  | [x] => rfl
  | x :: y :: rest => exact value_foldl ρ (y :: rest) x

/-- **The expression of a block has the value of the block**, if its number is what its text says. -/
theorem value_meaning (type : String) (fields mutation : Table String)
    (hlegible : type = "math_number" → Number.Legible (numberIn (fields.get? "NUM"))) :
    (meaning (fun raw => raw) type fields mutation filled).value ρ =
      outcome ρ type fields mutation (filled.map fun e => (e.1, e.2.value ρ)) := by
  have hfalse : (ofLiteral "false").value ρ = .bool false := rfl
  have htrue : (ofLiteral "true").value ρ = .bool true := rfl
  have hnull : (ofLiteral "null").value ρ = .null := rfl
  have hempty : (ofLiteral "''").value ρ = .string "" := rfl
  have hin (socket : String) {default : String} {missing : Value}
      (h : (ofLiteral default).value ρ = missing) := value_operand ρ filled socket h
  rw [meaning.eq_def]
  split
  · rw [Expr.value, hin "A" (value_zero ρ), hin "B" (value_zero ρ)]
    rfl
  · have hfilled (socket : String) :
        ((filled.map fun e => (e.1, e.2.value ρ)).lookup socket).isSome =
          (filled.lookup socket).isSome := by rw [lookup_map (Expr.value ρ), Option.isSome_map]
    rw [outcome, hfilled, hfilled]
    split
    · rw [Expr.value, hin "A" hfalse, hin "B" hfalse]
    · dsimp only
      split
      · next hany => rw [Expr.value, hin "A" htrue, hin "B" htrue, hany]
      · next hany => rw [Expr.value, hin "A" hfalse, hin "B" hfalse, Bool.eq_false_iff.2 hany]
  · rw [Expr.value, hin "BOOL" htrue]
    rfl
  · rfl
  · rfl
  · rw [Expr.value, hin "IF" hfalse, hin "THEN" hnull, hin "ELSE" hnull]
    rfl
  · exact value_literal ρ (hlegible rfl)
  · rw [value_arithmetic, hin "A" (value_zero ρ), hin "B" (value_zero ρ)]
    rfl
  · rfl
  · rw [value_joined, List.map_map]
    refine congrArg summedUp (List.map_congr_left fun i _ => ?_)
    exact hin _ hempty
  · rfl
  · rw [outcome]
    · rfl
    all_goals assumption

mutual

/-- **The expression of a tree has the value of the tree**, if its numbers are what their texts
say. -/
theorem value_expr : ∀ t : BlockTree, t.Legible → (t.expr fun raw => raw).value ρ = t.value ρ
  | mk _ type fields mutation inputs _, h => by
    have hparts : ∀ e ∈ inputs, e.2.Legible :=
      fun e he => h.part (.inl ⟨e.1, he⟩)
    rw [expr, value_meaning ρ _ type fields mutation (h _ (self_mem_blocks _)),
      inputValues_eq inputs hparts, value]

theorem inputValues_eq : ∀ inputs : List (String × BlockTree), (∀ e ∈ inputs, e.2.Legible) →
    (inputExprs (fun raw => raw) inputs).map (fun e => (e.1, e.2.value ρ)) = inputValues ρ inputs
  | [], _ => rfl
  | (socket, t) :: rest, h => by
    rw [List.forall_mem_cons] at h
    rw [inputExprs, List.map_cons, value_expr t h.1, inputValues_eq rest h.2, inputValues]

end

end Value

/-! ## The names of the variables -/

section Names

variable (names : String → String) (filled : List (String × Expr))

theorem operand_rename (socket : String) {default : String}
    (hdefault : (ofLiteral default).vars = []) :
    operand (filled.map fun e => (e.1, e.2.rename names)) socket default =
      (operand filled socket default).rename names := by
  rw [operand, operand, lookup_map (Expr.rename names)]
  cases filled.lookup socket with
  | none => exact ((ofLiteral default).rename_eq_self names hdefault).symm
  | some e => rfl

theorem arithmetic_rename (op : String) (a b : Expr) :
    arithmetic op (a.rename names) (b.rename names) = (arithmetic op a b).rename names := by
  rw [arithmetic.eq_def op a b]
  split
  · rfl
  · rfl
  · rfl
  · rfl
  · rw [arithmetic]
    · rfl
    all_goals assumption

theorem joined_rename (es : List Expr) :
    joined (es.map (Expr.rename names)) = (joined es).rename names := by
  have hfoldl (es : List Expr) (a : Expr) :
      (es.map (Expr.rename names)).foldl (.binary .start .add) (a.rename names) =
        (es.foldl (.binary .start .add) a).rename names := by
    induction es generalizing a with
    | nil => rfl
    | cons e es ih => exact ih (.binary .start .add a e)
  match es with
  | [] => rfl
  | [x] => rfl
  | x :: y :: rest => exact hfoldl (y :: rest) x

/-- **All that the expression of a block takes from the names is the names of its variables**, if
its number is finite. -/
theorem meaning_rename (type : String) (fields mutation : Table String)
    (hfinite : type = "math_number" → (numberIn (fields.get? "NUM")).isFinite = true) :
    meaning names type fields mutation (filled.map fun e => (e.1, e.2.rename names)) =
      (meaning (fun raw => raw) type fields mutation filled).rename names := by
  have hin (socket : String) {default : String} (h : (ofLiteral default).vars = []) :=
    operand_rename names filled socket h
  have hfilled (socket : String) :
      ((filled.map fun e => (e.1, e.2.rename names)).lookup socket).isSome =
        (filled.lookup socket).isSome := by rw [lookup_map (Expr.rename names), Option.isSome_map]
  rw [meaning.eq_def (fun raw => raw)]
  split
  · rw [meaning, hin "A" rfl, hin "B" rfl]
    rfl
  · rw [meaning, hfilled, hfilled]
    split
    · rw [hin "A" rfl, hin "B" rfl]
      rfl
    · dsimp only
      split
      · rw [hin "A" rfl, hin "B" rfl]
        rfl
      · rw [hin "A" rfl, hin "B" rfl]
        rfl
  · rw [meaning, hin "BOOL" rfl]
    rfl
  · rfl
  · rfl
  · rw [meaning, hin "IF" rfl, hin "THEN" rfl, hin "ELSE" rfl]
    rfl
  · have hnames := (Generation.says_number (numberIn (fields.get? "NUM"))
      (show Generation.Order.atomic ∈ Generation.Order.expressions by decide) rfl).2
    rw [Number.literalWord?_of_isFinite (hfinite rfl)] at hnames
    exact (Expr.rename_eq_self names _ hnames.vars).symm
  · rw [meaning, hin "A" rfl, hin "B" rfl, arithmetic_rename]
  · rfl
  · rw [meaning, ← joined_rename, List.map_map]
    refine congrArg joined (List.map_congr_left fun i _ => ?_)
    exact hin _ rfl
  · rfl
  · rw [meaning]
    · rfl
    all_goals assumption

mutual

/-- **The expression of a tree is the same for all names**, but for the names. -/
theorem expr_rename : ∀ t : BlockTree, t.Finite → t.expr names = (t.expr fun raw => raw).rename names
  | mk id type fields mutation inputs next, h => by
    have hparts : ∀ e ∈ inputs, e.2.Finite :=
      fun e he => h.part (.inl ⟨e.1, he⟩)
    have hown := h _ (self_mem_blocks _)
    rw [expr, inputExprs_rename inputs hparts, meaning_rename names _ type fields mutation hown, expr]

theorem inputExprs_rename : ∀ inputs : List (String × BlockTree), (∀ e ∈ inputs, e.2.Finite) →
    inputExprs names inputs =
      (inputExprs (fun raw => raw) inputs).map fun e => (e.1, e.2.rename names)
  | [], _ => rfl
  | (socket, t) :: rest, h => by
    rw [List.forall_mem_cons] at h
    rw [inputExprs, inputExprs, List.map_cons, expr_rename t h.1, inputExprs_rename rest h.2]

end

/-! ## The functions that are called -/

/-- What a tree of value blocks may name: any variables, and two functions. -/
def valueScope : Scope := ⟨fun _ => True, (· ∈ ["Math.pow", "String"])⟩

variable {filled}

theorem inScope_operand (hfilled : ∀ e ∈ filled, e.2.InScope valueScope) (socket default : String) :
    (operand filled socket default).InScope valueScope := by
  rw [operand]
  cases hlookup : filled.lookup socket with
  | none =>
    refine ⟨fun _ _ => trivial, ?_⟩
    rw [Option.getD_none, callees_ofLiteral]
    exact List.forall_mem_nil _
  | some e => exact hfilled (socket, e) (Table.mem_of_lookup hlookup)

theorem inScope_arithmetic (op : String) {a b : Expr} (ha : a.InScope valueScope)
    (hb : b.InScope valueScope) : (arithmetic op a b).InScope valueScope := by
  rw [arithmetic.eq_def]
  split
  · exact Expr.InScope.binary_iff.2 ⟨ha, hb⟩
  · exact Expr.InScope.binary_iff.2 ⟨ha, hb⟩
  · exact Expr.InScope.binary_iff.2 ⟨ha, hb⟩
  · exact Expr.InScope.call_iff.2 ⟨List.mem_cons_self,
      List.forall_mem_cons.2 ⟨ha, List.forall_mem_singleton.2 hb⟩⟩
  · exact Expr.InScope.binary_iff.2 ⟨ha, hb⟩

theorem inScope_joined {es : List Expr} (h : ∀ e ∈ es, e.InScope valueScope) :
    (joined es).InScope valueScope := by
  match es, h with
  | [], _ => exact ⟨nofun, nofun⟩
  | [x], h => exact Expr.InScope.call_iff.2 ⟨List.mem_cons_of_mem _ List.mem_cons_self, h⟩
  | x :: y :: rest, h => exact Generation.inScope_summed h

theorem inScope_meaning (hfilled : ∀ e ∈ filled, e.2.InScope valueScope) (type : String)
    (fields mutation : Table String) :
    (meaning names type fields mutation filled).InScope valueScope := by
  have hin := inScope_operand hfilled
  rw [meaning.eq_def]
  split
  · exact Expr.InScope.binary_iff.2 ⟨hin _ _, hin _ _⟩
  · split
    · exact Expr.InScope.binary_iff.2 ⟨hin _ _, hin _ _⟩
    · exact Expr.InScope.binary_iff.2 ⟨hin _ _, hin _ _⟩
  · exact (hin _ _).unary .not
  · exact ⟨nofun, nofun⟩
  · exact ⟨nofun, nofun⟩
  · exact Expr.InScope.conditional_iff.2 ⟨hin _ _, hin _ _, hin _ _⟩
  · refine ⟨fun _ _ => trivial, ?_⟩
    rw [callees_ofLiteral]
    exact nofun
  · exact inScope_arithmetic _ (hin _ _) (hin _ _)
  · exact ⟨nofun, nofun⟩
  · refine inScope_joined fun e he => ?_
    obtain ⟨i, -, rfl⟩ := List.mem_map.1 he
    exact hin _ _
  · exact ⟨fun _ _ => trivial, nofun⟩
  · exact ⟨nofun, nofun⟩

mutual

/-- **The functions that the expression of a tree calls are built in.** -/
theorem inScope_expr : ∀ t : BlockTree, (t.expr names).InScope valueScope
  | mk _ type fields mutation inputs _ => by
    rw [expr]
    exact inScope_meaning names (inScope_inputExprs inputs) type fields mutation

theorem inScope_inputExprs : ∀ inputs : List (String × BlockTree),
    ∀ e ∈ inputExprs names inputs, e.2.InScope valueScope
  | [] => nofun
  | (_, t) :: rest => List.forall_mem_cons.2 ⟨inScope_expr t, inScope_inputExprs rest⟩

end

end Names

end BlockTree
end VisualBlocks

import VisualBlocks.Proofs.Script.Grammar

/-!
# Grouping from the left

Without parentheses a chain of sums is grouped from the left, and so is one of products,
conjunctions or disjunctions.  `Expr.leftward` groups all chains of an expression in that way.

* **Expressions that differ only in their grouping have the same form grouped from the left**
  (`Regrouped.leftward_eq`).  So an expression that is grouped from the left is known exactly once
  it is known up to its grouping.
* `Chain op w e`: operands of `op` one after the other, grouped from the left.  **Two chains written
  one after the other are a chain**, and what it means is the operation on what they mean, regrouped
  (`Chain.append`).
-/

set_option autoImplicit false

namespace VisualBlocks
namespace Script

namespace Expr

/-- Is the expression an operation of the kind? -/
def isOf (op : BinaryOp) : Expr → Bool
  | .binary _ o _ _ => o == op
  | _ => false

/-- An operation whose right operand is laid out from the left if it is of the same kind. -/
def onto (op : BinaryOp) (a : Expr) : Expr → Expr
  | .binary pos o l r =>
    if o = op then .binary .start op (onto op a l) r else .binary .start op a (.binary pos o l r)
  | e => .binary .start op a e

mutual

/-- The expression with all its chains grouped from the left. -/
def leftward : Expr → Expr
  | .number pos x => .number pos x
  | .string pos s => .string pos s
  | .bool pos b => .bool pos b
  | .null pos => .null pos
  | .var pos name => .var pos name
  | .unary pos op operand => .unary pos op operand.leftward
  | .binary pos op left right =>
    if op.regroups then onto op left.leftward right.leftward
    else .binary pos op left.leftward right.leftward
  | .conditional pos test yes no => .conditional pos test.leftward yes.leftward no.leftward
  | .call pos callee args => .call pos callee (leftwardAll args)

/-- The expressions with all their chains grouped from the left. -/
def leftwardAll : List Expr → List Expr
  | [] => []
  | e :: es => e.leftward :: leftwardAll es

end

variable {op : BinaryOp} {a b : Expr}

theorem leftwardAll_eq (es : List Expr) : leftwardAll es = es.map leftward := by
  induction es with
  | nil => rfl
  | cons e es ih => rw [leftwardAll, ih, List.map_cons]

theorem onto_of_not (h : b.isOf op = false) : onto op a b = .binary .start op a b := by
  cases b with
  | binary pos o l r =>
    have hne : ¬ o = op := by simpa [isOf] using h
    rw [onto, if_neg hne]
  | _ => rfl

theorem onto_binary (a l r : Expr) :
    onto op a (.binary .start op l r) = .binary .start op (onto op a l) r := by
  rw [onto, if_pos rfl]

/-- **Laying out from the left does not depend on the grouping.** -/
theorem onto_assoc (op : BinaryOp) (a b c : Expr) :
    onto op (onto op a b) c = onto op a (onto op b c) := by
  fun_induction onto op b c with
  | case1 pos l r ih => rw [onto, if_pos rfl, onto_binary, ih]
  | case2 pos o l r ho =>
    have hnot : (Expr.binary pos o l r).isOf op = false := by simpa [isOf] using ho
    rw [onto_of_not hnot, onto_binary]
  | case3 e hother => rw [onto_binary, onto.eq_2 op _ e hother]

end Expr

open Script.Expr

/-- **The form grouped from the left is the same however an expression is grouped.** -/
theorem Regrouped.leftward_eq {a b : Expr} (h : Regrouped a b) : a.leftward = b.leftward := by
  induction h with
  | refl e => rfl
  | symm _ ih => exact ih.symm
  | trans _ _ ihab ihbc => exact ihab.trans ihbc
  | group hop a b c => simp only [leftward, hop, if_true, onto_assoc]
  | unary op _ ih => rw [leftward, leftward, ih]
  | binary op _ _ ihab ihcd => rw [leftward, leftward, ihab, ihcd]
  | conditional _ _ _ ihab ihcd ihef => rw [leftward, leftward, ihab, ihcd, ihef]
  | call callee before after _ ih => simp only [leftward, leftwardAll_eq, List.map_append,
      List.map_cons, ih]

/-- Are all chains of the expression grouped from the left? -/
def Expr.IsLeftward (e : Expr) : Prop := e.leftward = e

/-- An operation that regroups, on a right operand that is no operation of the same kind. -/
theorem Expr.IsLeftward.chained {op : BinaryOp} {a b : Expr} (hop : op.regroups = true)
    (hb : b.isOf op = false) (hleft : a.IsLeftward) (hright : b.IsLeftward) :
    (Expr.binary .start op a b).IsLeftward := by
  show (if op.regroups then Expr.onto op a.leftward b.leftward else _) = _
  rw [hop, if_pos rfl, hleft, hright, onto_of_not hb]

/-- Has the expression no parts? -/
def Expr.isLeaf : Expr → Bool
  | .number _ _ | .string _ _ | .bool _ _ | .null _ | .var _ _ => true
  | _ => false

/-- An expression that is no chain itself, and all chains in it are grouped from the left. -/
structure Expr.Unchained (e : Expr) : Prop where
  isLeftward : e.IsLeftward
  root : ∀ op, op.regroups = true → e.isOf op = false

namespace Expr.Unchained

variable {op : BinaryOp} {pos : Position} {a b c e : Expr}

theorem leaf (h : e.isLeaf = true) : e.Unchained := by
  cases e with
  | number | string | bool | null | var => exact ⟨rfl, fun _ _ => rfl⟩
  | _ => cases h

theorem unary (uop : UnaryOp) (ha : a.IsLeftward) : (Expr.unary pos uop a).Unchained :=
  ⟨congrArg (Expr.unary pos uop) ha, fun _ _ => rfl⟩

theorem binary (hop : op.regroups = false) (ha : a.IsLeftward) (hb : b.IsLeftward) :
    (Expr.binary pos op a b).Unchained := by
  refine ⟨?_, fun other hother => ?_⟩
  · show (if op.regroups then _ else Expr.binary pos op a.leftward b.leftward) = _
    rw [hop, if_neg Bool.false_ne_true, ha, hb]
  · show (op == other) = false
    rw [beq_eq_false_iff_ne]
    rintro rfl
    rw [hop] at hother
    cases hother

theorem conditional (ha : a.IsLeftward) (hb : b.IsLeftward) (hc : c.IsLeftward) :
    (Expr.conditional pos a b c).Unchained := by
  refine ⟨?_, fun _ _ => rfl⟩
  show Expr.conditional pos a.leftward b.leftward c.leftward = _
  rw [ha, hb, hc]

theorem call (callee : String) {args : List Expr} (h : ∀ e ∈ args, e.IsLeftward) :
    (Expr.call pos callee args).Unchained := by
  refine ⟨?_, fun _ _ => rfl⟩
  show Expr.call pos callee (leftwardAll args) = _
  rw [leftwardAll_eq, List.map_congr_left h, List.map_id']

end Expr.Unchained

/-! ## Chains -/

/-- An operand among others: it binds tightly enough, and no operation of the same kind is in
parentheses there. -/
structure Link (op : BinaryOp) (w : List Lexeme) (e : Expr) : Prop where
  spells : Spells (op.precedence + 1) w e
  isLeftward : e.IsLeftward
  root : e.isOf op = false

/-- Operands of one operator, one after the other, grouped from the left. -/
inductive Chain (op : BinaryOp) : List Lexeme → Expr → Prop
  | one {w : List Lexeme} {e : Expr} (h : Link op w e) : Chain op w e
  | more {v w : List Lexeme} {a b : Expr} (ha : Chain op v a) (hb : Link op w b) :
      Chain op (v ++ .operator op.symbol :: w) (.binary .start op a b)

namespace Chain

variable {op : BinaryOp} {v w : List Lexeme} {a b e : Expr}

theorem spells (h : Chain op w e) : Spells op.precedence w e := by
  induction h with
  | one h => exact h.spells.mono (Nat.le_succ _)
  | more ha hb ih => exact .binary op (Nat.le_refl _) ih hb.spells

theorem isLeftward (hop : op.regroups = true) (h : Chain op w e) : e.IsLeftward := by
  induction h with
  | one h => exact h.isLeftward
  | more _ hb ih => exact .chained hop hb.root ih hb.isLeftward

/-- **Two chains written one after the other are a chain.** -/
theorem append (hop : op.regroups = true) (ha : Chain op v a) (hb : Chain op w b) :
    ∃ c d, Chain op (v ++ .operator op.symbol :: w) (.binary .start op c d) ∧
      Regrouped (.binary .start op c d) (.binary .start op a b) := by
  induction hb with
  | one h => exact ⟨a, _, .more ha h, .refl _⟩
  | @more w₁ w₂ b₁ b₂ h₁ h₂ ih =>
    obtain ⟨c, d, he, hre⟩ := ih
    refine ⟨.binary .start op c d, b₂, ?_, ?_⟩
    · have := he.more h₂
      rwa [List.append_assoc, List.cons_append] at this
    · exact (Regrouped.binary op hre (.refl b₂)).trans (.group hop a b₁ b₂)

end Chain

end Script
end VisualBlocks

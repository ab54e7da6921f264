import VisualBlocks.Proofs.Script.Regrouping

/-!
# Variables under other names

`Expr.rename` gives the variables of an expression other names.  That changes neither how the
expression is grouped (`Expr.leftward_rename`) nor its value, if each variable has the value that
the new name has (`Expr.value_rename`).
-/

set_option autoImplicit false

namespace VisualBlocks
namespace Script

open Script.Expr

/-! ## Variables -/

theorem vars_onto (op : BinaryOp) (a b : Expr) :
    (onto op a b).vars = a.vars ++ b.vars := by
  fun_induction onto op a b with
  | case1 pos l r ih => rw [Expr.vars, ih, List.append_assoc, Expr.vars]
  | case2 | case3 => rfl

mutual

/-- Grouping from the left keeps the variables in their order. -/
theorem Expr.vars_leftward : ∀ e : Expr, e.leftward.vars = e.vars
  | .number _ _ => rfl
  | .string _ _ => rfl
  | .bool _ _ => rfl
  | .null _ => rfl
  | .var _ _ => rfl
  | .unary _ _ operand => Expr.vars_leftward operand
  | .binary pos op l r => by
    have hl := Expr.vars_leftward l
    have hr := Expr.vars_leftward r
    rw [Expr.leftward]
    split
    · rw [vars_onto, hl, hr, Expr.vars]
    · rw [Expr.vars, hl, hr, Expr.vars]
  | .conditional _ test yes no => by
    rw [Expr.leftward, Expr.vars, Expr.vars, Expr.vars_leftward test,
      Expr.vars_leftward yes, Expr.vars_leftward no]
  | .call _ _ args => argVars_leftward args

theorem argVars_leftward : ∀ es : List Expr, argVars (leftwardAll es) = argVars es
  | [] => rfl
  | e :: es => by
    rw [leftwardAll, argVars, argVars, Expr.vars_leftward e, argVars_leftward es]

end

/-! ## Renaming -/

mutual

/-- The expression with other names for its variables. -/
def Expr.rename (f : String → String) : Expr → Expr
  | .number pos x => .number pos x
  | .string pos s => .string pos s
  | .bool pos b => .bool pos b
  | .null pos => .null pos
  | .var pos name => .var pos (f name)
  | .unary pos op operand => .unary pos op (operand.rename f)
  | .binary pos op l r => .binary pos op (l.rename f) (r.rename f)
  | .conditional pos test yes no => .conditional pos (test.rename f) (yes.rename f) (no.rename f)
  | .call pos callee args => .call pos callee (renameAll f args)

/-- The expressions with other names for their variables. -/
def renameAll (f : String → String) : List Expr → List Expr
  | [] => []
  | e :: es => e.rename f :: renameAll f es

end

variable (f : String → String)

theorem onto_rename (op : BinaryOp) (a b : Expr) :
    onto op (a.rename f) (b.rename f) = (onto op a b).rename f := by
  fun_induction onto op a b with
  | case1 pos l r ih => rw [Expr.rename, onto, if_pos rfl, ih, Expr.rename]
  | case2 pos o l r ho => rw [Expr.rename, onto, if_neg ho, Expr.rename, Expr.rename]
  | case3 e hother =>
    cases e with
    | binary pos o l r => exact absurd rfl (hother pos o l r)
    | _ => rfl

mutual

theorem Expr.leftward_rename : ∀ e : Expr, (e.rename f).leftward = e.leftward.rename f
  | .number _ _ => rfl
  | .string _ _ => rfl
  | .bool _ _ => rfl
  | .null _ => rfl
  | .var _ _ => rfl
  | .unary _ _ operand => by
    rw [Expr.rename, Expr.leftward, Expr.leftward_rename operand, Expr.leftward, Expr.rename]
  | .binary pos op l r => by
    have hl := Expr.leftward_rename l
    have hr := Expr.leftward_rename r
    rw [Expr.rename, Expr.leftward, Expr.leftward]
    split
    · rw [hl, hr, onto_rename]
    · rw [hl, hr, Expr.rename]
  | .conditional _ test yes no => by
    rw [Expr.rename, Expr.leftward, Expr.leftward_rename test, Expr.leftward_rename yes,
      Expr.leftward_rename no, Expr.leftward, Expr.rename]
  | .call _ _ args => by
    rw [Expr.rename, Expr.leftward, leftwardAll_rename args, Expr.leftward, Expr.rename]

theorem leftwardAll_rename : ∀ es : List Expr,
    leftwardAll (renameAll f es) = renameAll f (leftwardAll es)
  | [] => rfl
  | e :: es => by
    rw [renameAll, leftwardAll, Expr.leftward_rename e, leftwardAll_rename es, leftwardAll, renameAll]

end

mutual

/-- A variable under another name has the value of that name. -/
theorem Expr.value_rename (ρ : String → Value) :
    ∀ e : Expr, (e.rename f).value ρ = e.value fun x => ρ (f x)
  | .number _ _ => rfl
  | .string _ _ => rfl
  | .bool _ _ => rfl
  | .null _ => rfl
  | .var _ _ => rfl
  | .unary _ _ operand => by
    rw [Expr.rename, Expr.value, Expr.value_rename ρ operand, Expr.value]
  | .binary _ _ l r => by
    rw [Expr.rename, Expr.value, Expr.value_rename ρ l, Expr.value_rename ρ r, Expr.value]
  | .conditional _ test yes no => by
    rw [Expr.rename, Expr.value, Expr.value_rename ρ test, Expr.value_rename ρ yes,
      Expr.value_rename ρ no, Expr.value]
  | .call _ _ args => by
    rw [Expr.rename, Expr.value, argValues_rename ρ args, Expr.value]

theorem argValues_rename (ρ : String → Value) :
    ∀ es : List Expr, argValues ρ (renameAll f es) = argValues (fun x => ρ (f x)) es
  | [] => rfl
  | e :: es => by
    rw [renameAll, argValues, Expr.value_rename ρ e, argValues_rename ρ es, argValues]

end

mutual

theorem Expr.vars_rename : ∀ e : Expr, (e.rename f).vars = e.vars.map f
  | .number _ _ => rfl
  | .string _ _ => rfl
  | .bool _ _ => rfl
  | .null _ => rfl
  | .var _ _ => rfl
  | .unary _ _ operand => Expr.vars_rename operand
  | .binary _ _ l r => by
    rw [Expr.rename, Expr.vars, Expr.vars_rename l, Expr.vars_rename r,
      Expr.vars, List.map_append]
  | .conditional _ test yes no => by
    rw [Expr.rename, Expr.vars, Expr.vars_rename test, Expr.vars_rename yes,
      Expr.vars_rename no, Expr.vars, List.map_append, List.map_append]
  | .call _ _ args => argVars_rename args

theorem argVars_rename :
    ∀ es : List Expr, argVars (renameAll f es) = (argVars es).map f
  | [] => rfl
  | e :: es => by
    rw [renameAll, argVars, Expr.vars_rename e, argVars_rename es, argVars,
      List.map_append]

end

mutual

/-- An expression without variables stays as it is. -/
theorem Expr.rename_eq_self : ∀ e : Expr, e.vars = [] → e.rename f = e
  | .number _ _, _ => rfl
  | .string _ _, _ => rfl
  | .bool _ _, _ => rfl
  | .null _, _ => rfl
  | .unary pos op operand, h => congrArg (Expr.unary pos op) (Expr.rename_eq_self operand h)
  | .binary _ _ l r, h => by
    obtain ⟨hl, hr⟩ := List.append_eq_nil_iff.1 h
    rw [Expr.rename, Expr.rename_eq_self l hl, Expr.rename_eq_self r hr]
  | .conditional _ test yes no, h => by
    obtain ⟨htest, hrest⟩ := List.append_eq_nil_iff.1 h
    obtain ⟨hyes, hno⟩ := List.append_eq_nil_iff.1 hrest
    rw [Expr.rename, Expr.rename_eq_self test htest, Expr.rename_eq_self yes hyes,
      Expr.rename_eq_self no hno]
  | .call pos callee args, h => congrArg (Expr.call pos callee) (renameAll_eq_self args h)

theorem renameAll_eq_self : ∀ es : List Expr, argVars es = [] → renameAll f es = es
  | [], _ => rfl
  | e :: es, h => by
    obtain ⟨he, hes⟩ := List.append_eq_nil_iff.1 h
    rw [renameAll, Expr.rename_eq_self e he, renameAll_eq_self es hes]

end

end Script
end VisualBlocks

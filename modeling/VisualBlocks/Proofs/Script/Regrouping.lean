import VisualBlocks.Proofs.Script.Leftward
import VisualBlocks.Proofs.Script.Scope

/-!
# Values and grouping

The value of an expression whose functions are built in depends on the values of its variables only
(`Expr.value`), and a machine finds it whatever host it has (`Expr.InScope.eval_eq`).

Grouping an expression from the left changes which intermediate results there are.  `Expr.Absorbs`
says of the operand on the right of a sum, product, conjunction or disjunction that this does not
matter for the result.

* Conjunctions and disjunctions always absorb (`absorbs_and`, `absorbs_or`).
* **An expression whose sums and products absorb keeps its value when it is grouped from the left**
  (`Expr.Settled.value_leftward`).
-/

set_option autoImplicit false

namespace VisualBlocks
namespace Script

/-! ## Values -/

mutual

/-- The value of an expression, given the values of the variables.  A function that is not built in
gives nothing. -/
def Expr.value (ρ : String → Value) : Expr → Value
  | .number _ x => .number x
  | .string _ s => .string s
  | .bool _ b => .bool b
  | .null _ => .null
  | .var _ name => ρ name
  | .unary _ op operand => .unary op (operand.value ρ)
  | .binary _ op left right => .binary op (left.value ρ) (right.value ρ)
  | .conditional _ test yes no => if (test.value ρ).truthy then yes.value ρ else no.value ρ
  | .call _ callee args => (builtin? callee (argValues ρ args)).getD .undefined

/-- The values of the arguments of a call. -/
def argValues (ρ : String → Value) : List Expr → List Value
  | [] => []
  | e :: es => e.value ρ :: argValues ρ es

end

section Eval

variable {σ : Type} {host : Host σ} {globals : Table Value} {ρ : String → Value} {S : Scope}

mutual

/-- **An expression whose variables have values and whose functions are built in has its value**,
and nothing else happens. -/
theorem Expr.InScope.eval_eq (hvalues : ∀ x, S.vars x → globals.get? x = some (ρ x))
    (hfunctions : ∀ f, S.functions f → ∀ args, (builtin? f args).isSome = true) :
    ∀ e : Expr, e.InScope S → ∀ s, e.eval host globals s = (.ok (e.value ρ), s)
  | .number _ _, _, _ => rfl
  | .string _ _, _, _ => rfl
  | .bool _ _, _, _ => rfl
  | .null _, _, _ => rfl
  | .var pos name, h, s => by
    rw [Expr.eval, lookUp, hvalues name (h.vars name List.mem_cons_self)]
    rfl
  | .unary _ op operand, h, s => by
    have hoperand := Expr.InScope.eval_eq hvalues hfunctions operand ⟨h.vars, h.callees⟩ s
    rw [Expr.eval, Evaluation.bind_apply, hoperand]
    rfl
  | .binary pos op left right, h, s => by
    obtain ⟨hleft, hright⟩ := Expr.InScope.binary_iff.1 h
    have hl := Expr.InScope.eval_eq hvalues hfunctions left hleft s
    have hr := Expr.InScope.eval_eq hvalues hfunctions right hright s
    rw [Expr.eval, Evaluation.bind_apply, hl, Expr.value]
    cases op with
    | and =>
      dsimp only [Value.binary]
      split
      · exact hr
      · rfl
    | or =>
      dsimp only [Value.binary]
      split
      · rfl
      · exact hr
    | _ =>
      dsimp only
      rw [Evaluation.bind_apply, hr]
      rfl
  | .conditional _ test yes no, h, s => by
    obtain ⟨htest, hyes, hno⟩ := Expr.InScope.conditional_iff.1 h
    rw [Expr.eval, Evaluation.bind_apply,
      Expr.InScope.eval_eq hvalues hfunctions test htest s, Expr.value]
    dsimp only
    split
    · exact Expr.InScope.eval_eq hvalues hfunctions yes hyes s
    · exact Expr.InScope.eval_eq hvalues hfunctions no hno s
  | .call pos callee args, h, s => by
    obtain ⟨hcallee, hargs⟩ := Expr.InScope.call_iff.1 h
    obtain ⟨v, hv⟩ := Option.isSome_iff_exists.1 (hfunctions callee hcallee (argValues ρ args))
    rw [Expr.eval, Evaluation.bind_apply, evalArgs_eq hvalues hfunctions args hargs s, Expr.value]
    dsimp only
    rw [applyFunction, callFunction, hv]
    rfl

theorem evalArgs_eq (hvalues : ∀ x, S.vars x → globals.get? x = some (ρ x))
    (hfunctions : ∀ f, S.functions f → ∀ args, (builtin? f args).isSome = true) :
    ∀ es : List Expr, (∀ e ∈ es, e.InScope S) → ∀ s,
      evalArgs host globals es s = (.ok (argValues ρ es), s)
  | [], _, _ => rfl
  | e :: es, h, s => by
    rw [List.forall_mem_cons] at h
    rw [evalArgs, Evaluation.bind_apply, Expr.InScope.eval_eq hvalues hfunctions e h.1 s]
    dsimp only
    rw [Evaluation.bind_apply, evalArgs_eq hvalues hfunctions es h.2 s]
    rfl

end

end Eval

mutual

/-- Positions do not matter for the value. -/
theorem Expr.value_strip (ρ : String → Value) : ∀ e : Expr, e.strip.value ρ = e.value ρ
  | .number _ _ => rfl
  | .string _ _ => rfl
  | .bool _ _ => rfl
  | .null _ => rfl
  | .var _ _ => rfl
  | .unary _ _ operand => by simp only [Expr.strip, Expr.value, Expr.value_strip ρ operand]
  | .binary _ _ left right => by
    simp only [Expr.strip, Expr.value, Expr.value_strip ρ left, Expr.value_strip ρ right]
  | .conditional _ test yes no => by
    simp only [Expr.strip, Expr.value, Expr.value_strip ρ test, Expr.value_strip ρ yes,
      Expr.value_strip ρ no]
  | .call _ _ args => by simp only [Expr.strip, Expr.value, argValues_strip ρ args]

theorem argValues_strip (ρ : String → Value) :
    ∀ es : List Expr, argValues ρ (stripAll es) = argValues ρ es
  | [] => rfl
  | e :: es => by simp only [stripAll, argValues, Expr.value_strip ρ e, argValues_strip ρ es]

end

mutual

/-- Only the variables that an expression reads matter for its value. -/
theorem Expr.value_congr {ρ ρ' : String → Value} :
    ∀ e : Expr, (∀ x ∈ e.vars, ρ x = ρ' x) → e.value ρ = e.value ρ'
  | .number _ _, _ => rfl
  | .string _ _, _ => rfl
  | .bool _ _, _ => rfl
  | .null _, _ => rfl
  | .var _ name, h => h name List.mem_cons_self
  | .unary _ op operand, h => congrArg (Value.unary op) (Expr.value_congr operand h)
  | .binary _ op left right, h => by
    rw [Expr.vars, List.forall_mem_append] at h
    rw [Expr.value, Expr.value, Expr.value_congr left h.1, Expr.value_congr right h.2]
  | .conditional _ test yes no, h => by
    rw [Expr.vars, List.forall_mem_append, List.forall_mem_append] at h
    rw [Expr.value, Expr.value, Expr.value_congr test h.1, Expr.value_congr yes h.2.1,
      Expr.value_congr no h.2.2]
  | .call _ callee args, h => by
    rw [Expr.value, Expr.value, argValues_congr args h]

theorem argValues_congr {ρ ρ' : String → Value} :
    ∀ es : List Expr, (∀ x ∈ argVars es, ρ x = ρ' x) → argValues ρ es = argValues ρ' es
  | [], _ => rfl
  | e :: es, h => by
    rw [argVars, List.forall_mem_append] at h
    rw [argValues, argValues, Expr.value_congr e h.1, argValues_congr es h.2]

end

/-! ## Grouping from the left -/

namespace Expr

/-- Is the value of `x op e` the same however `x` and the operands of `e` are grouped? -/
def Absorbs (ρ : String → Value) (op : BinaryOp) (x : Value) : Expr → Prop
  | .binary _ o l r =>
    o = op → Absorbs ρ op x l ∧ Absorbs ρ op (.binary op x (l.value ρ)) r ∧
      Value.binary op (.binary op x (l.value ρ)) (r.value ρ) =
        .binary op x (.binary op (l.value ρ) (r.value ρ))
  | _ => True

mutual

/-- Does every sum and every product in the expression absorb its right operand? -/
def Settled (ρ : String → Value) : Expr → Prop
  | .unary _ _ operand => operand.Settled ρ
  | .binary _ op left right =>
    left.Settled ρ ∧ right.Settled ρ ∧
      (op = .add ∨ op = .mul → right.Absorbs ρ op (left.value ρ))
  | .conditional _ test yes no => test.Settled ρ ∧ yes.Settled ρ ∧ no.Settled ρ
  | .call _ _ args => SettledAll ρ args
  | _ => True

/-- Is every one of the expressions settled? -/
def SettledAll (ρ : String → Value) : List Expr → Prop
  | [] => True
  | e :: es => e.Settled ρ ∧ SettledAll ρ es

end

variable {ρ : String → Value} {op : BinaryOp} {a b e : Expr}

/-- An operation that is associative always absorbs. -/
theorem absorbs_of_assoc
    (h : ∀ x y z, Value.binary op (.binary op x y) z = .binary op x (.binary op y z)) :
    ∀ (e : Expr) (x : Value), e.Absorbs ρ op x
  | .binary _ _ l r, x => fun _ =>
    ⟨absorbs_of_assoc h l x, absorbs_of_assoc h r _, h x (l.value ρ) (r.value ρ)⟩
  | .number _ _, _ => trivial
  | .string _ _, _ => trivial
  | .bool _ _, _ => trivial
  | .null _, _ => trivial
  | .var _ _, _ => trivial
  | .unary _ _ _, _ => trivial
  | .conditional _ _ _ _, _ => trivial
  | .call _ _ _, _ => trivial

/-- **Conjunctions may be grouped either way**, whatever the values are. -/
theorem absorbs_and (e : Expr) (x : Value) : e.Absorbs ρ .and x := by
  refine absorbs_of_assoc (fun x y z => ?_) e x
  by_cases hx : x.truthy = true <;> simp [Value.binary, hx]

/-- **Disjunctions may be grouped either way**, whatever the values are. -/
theorem absorbs_or (e : Expr) (x : Value) : e.Absorbs ρ .or x := by
  refine absorbs_of_assoc (fun x y z => ?_) e x
  by_cases hx : x.truthy = true <;> simp [Value.binary, hx]

theorem isOf_onto (op o : BinaryOp) (a b : Expr) : (onto op a b).isOf o = (op == o) := by
  fun_cases onto op a b <;> rfl

/-- Grouping from the left keeps the kind of the operation. -/
theorem isOf_leftward (e : Expr) (o : BinaryOp) : e.leftward.isOf o = e.isOf o := by
  cases e with
  | binary pos op l r =>
    rw [leftward]
    split
    · exact isOf_onto op o _ _
    · rfl
  | _ => rfl

end Expr

open Script.Expr

/-- Grouping from the left does not change the value of the expression, nor of an operation on it
that it absorbs. -/
structure Expr.Steady (ρ : String → Value) (e : Expr) : Prop where
  value : e.leftward.value ρ = e.value ρ
  onto (op : BinaryOp) (a : Expr) (hop : op.regroups = true) (h : e.Absorbs ρ op (a.value ρ)) :
    (onto op a e.leftward).value ρ = .binary op (a.value ρ) (e.value ρ)

namespace Expr.Steady

variable {ρ : String → Value} {pos : Position} {op : BinaryOp} {l r e : Expr}

/-- What is no operation of the kind becomes the right operand as it is. -/
theorem value_onto (h : e.leftward.value ρ = e.value ρ) (hnot : e.isOf op = false) (a : Expr) :
    (Expr.onto op a e.leftward).value ρ = .binary op (a.value ρ) (e.value ρ) := by
  rw [onto_of_not (by rwa [isOf_leftward]), Expr.value, h]

theorem of_not (h : e.leftward.value ρ = e.value ρ) (hnot : ∀ op, e.isOf op = false) :
    e.Steady ρ :=
  ⟨h, fun op a _ _ => value_onto h (hnot op) a⟩

/-- The operands of a chain are laid out one after the other. -/
theorem chain (hop : op.regroups = true) (hl : l.Steady ρ) (hr : r.Steady ρ)
    (h : r.Absorbs ρ op (l.value ρ)) : (Expr.binary pos op l r).Steady ρ := by
  have hleftward : (Expr.binary pos op l r).leftward = Expr.onto op l.leftward r.leftward := by
    rw [Expr.leftward, if_pos hop]
  have hvalue : (Expr.binary pos op l r).leftward.value ρ = (Expr.binary pos op l r).value ρ := by
    rw [hleftward, hr.onto op l.leftward hop (hl.value.symm ▸ h), hl.value, Expr.value]
  refine ⟨hvalue, fun o a ho habsorbs => ?_⟩
  by_cases heq : op = o
  · subst heq
    obtain ⟨hleft, hright, hsame⟩ := habsorbs rfl
    have ha := hl.onto op a hop hleft
    rw [hleftward, ← onto_assoc, hr.onto op _ hop (ha.symm ▸ hright), ha, hsame, Expr.value]
  · exact value_onto hvalue (beq_false_of_ne heq) a

/-- An operation that is not regrouped is no chain. -/
theorem operation (hop : op.regroups = false) (hl : l.Steady ρ) (hr : r.Steady ρ) :
    (Expr.binary pos op l r).Steady ρ := by
  have hvalue : (Expr.binary pos op l r).leftward.value ρ = (Expr.binary pos op l r).value ρ := by
    rw [Expr.leftward, hop, if_neg Bool.false_ne_true, Expr.value, Expr.value, hl.value, hr.value]
  refine ⟨hvalue, fun o a ho _ => value_onto hvalue (beq_false_of_ne ?_) a⟩
  rintro rfl
  rw [hop] at ho
  cases ho

end Expr.Steady

mutual

theorem Expr.Settled.steady {ρ : String → Value} : ∀ e : Expr, e.Settled ρ → e.Steady ρ
  | .number _ _, _ => .of_not rfl fun _ => rfl
  | .string _ _, _ => .of_not rfl fun _ => rfl
  | .bool _ _, _ => .of_not rfl fun _ => rfl
  | .null _, _ => .of_not rfl fun _ => rfl
  | .var _ _, _ => .of_not rfl fun _ => rfl
  | .unary _ op operand, h =>
    .of_not (congrArg (Value.unary op) (Expr.Settled.steady operand h).value) fun _ => rfl
  | .binary _ op l r, h => by
    obtain ⟨hl, hr, habsorbs⟩ := h
    have hleft := Expr.Settled.steady l hl
    have hright := Expr.Settled.steady r hr
    cases op with
    | add => exact .chain rfl hleft hright (habsorbs (.inl rfl))
    | mul => exact .chain rfl hleft hright (habsorbs (.inr rfl))
    | and => exact .chain rfl hleft hright (absorbs_and r _)
    | or => exact .chain rfl hleft hright (absorbs_or r _)
    | _ => exact .operation rfl hleft hright
  | .conditional _ test yes no, h => by
    obtain ⟨htest, hyes, hno⟩ := h
    refine .of_not ?_ fun _ => rfl
    rw [Expr.leftward, Expr.value, Expr.value, (Expr.Settled.steady test htest).value,
      (Expr.Settled.steady yes hyes).value, (Expr.Settled.steady no hno).value]
  | .call _ callee args, h => by
    refine .of_not ?_ fun _ => rfl
    rw [Expr.leftward, Expr.value, Expr.value, argValues_leftward args h]

theorem argValues_leftward {ρ : String → Value} :
    ∀ es : List Expr, Expr.SettledAll ρ es → argValues ρ (leftwardAll es) = argValues ρ es
  | [], _ => rfl
  | e :: es, h => by
    rw [leftwardAll, argValues, argValues, (Expr.Settled.steady e h.1).value,
      argValues_leftward es h.2]

end

/-- **A settled expression keeps its value when it is grouped from the left.** -/
theorem Expr.Settled.value_leftward {ρ : String → Value} {e : Expr} (h : e.Settled ρ) :
    e.leftward.value ρ = e.value ρ := (Expr.Settled.steady e h).value

end Script
end VisualBlocks

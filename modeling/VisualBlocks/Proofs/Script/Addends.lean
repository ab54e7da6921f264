import Mathlib.Data.List.Forall2
import VisualBlocks.Proofs.Script.Evaluation
import VisualBlocks.Proofs.Script.Leftward

/-!
# The addends of a sum

A chain of sums is evaluated addend by addend, from the left, and the values are added up one after
the other (`Expr.eval_eq_ok_iff`).  Grouping the chain from the left keeps its addends
(`Expr.addends_onto`), but not what is added to what.  That matters as soon as a text is among the
values (`Value.textSoon`): **the values before the first text are added up as numbers, and those
after it are put behind it** (`Value.total_eq_of_textSoon`).

Where an expression stands in a program matters to its faults only (`Expr.eval_strip_eq_ok_iff`).
-/

set_option autoImplicit false

namespace VisualBlocks
namespace Script

/-! ## Sums of values -/

namespace Value

variable {a b v : Value} {vs ws : List Value}

/-- Is the value a text? -/
def isText : Value → Bool
  | .string _ => true
  | _ => false

/-- The sum of values, from the left.  Without any value it is the empty text. -/
def total : List Value → Value
  | [] => .string ""
  | v :: vs => vs.foldl (.binary .add) v

/-- Is one of the first two values a text? -/
def textSoon (vs : List Value) : Bool := (vs.take 2).any isText

/-- The texts of values, one after the other. -/
def displays (vs : List Value) : String := String.join (vs.map display)

theorem displays_cons (v : Value) (vs : List Value) :
    displays (v :: vs) = v.display ++ displays vs := String.join_cons

theorem displays_singleton (v : Value) : displays [v] = v.display :=
  (displays_cons v []).trans String.append_empty

theorem displays_append (vs ws : List Value) : displays (vs ++ ws) = displays vs ++ displays ws := by
  induction vs with
  | nil => exact (String.empty_append).symm
  | cons v vs ih => rw [List.cons_append, displays_cons, displays_cons, ih, String.append_assoc]

theorem isText_add (a b : Value) : (binary .add a b).isText = (a.isText || b.isText) := by
  cases a <;> cases b <;> rfl

/-- A text and any other value are put one after the other. -/
theorem add_of_isText (h : a.isText || b.isText) :
    binary .add a b = .string (a.display ++ b.display) := by
  cases a with
  | string s => rfl
  | _ => cases b with
    | string s => rfl
    | _ => cases h

/-- What is added to a text is put behind it. -/
theorem foldl_add_string (s : String) (vs : List Value) :
    vs.foldl (binary .add) (.string s) = .string (s ++ displays vs) := by
  induction vs generalizing s with
  | nil => exact congrArg Value.string String.append_empty.symm
  | cons v vs ih =>
    rw [List.foldl_cons, displays_cons, ← String.append_assoc]
    exact ih (s ++ v.display)

/-- **A sum with a text among its first two values puts all values one after the other.** -/
theorem total_eq_of_textSoon (h : textSoon vs = true) : total vs = .string (displays vs) := by
  match vs with
  | [] => cases h
  | [v] =>
    cases v with
    | string s => exact congrArg Value.string (displays_singleton (.string s)).symm
    | _ => cases h
  | v :: w :: rest =>
    have htext : v.isText || w.isText := by simpa [textSoon] using h
    rw [displays_cons, displays_cons, ← String.append_assoc]
    show rest.foldl (binary .add) (binary .add v w) = _
    rw [add_of_isText htext, foldl_add_string]

theorem isText_foldl (v : Value) (vs : List Value) :
    (vs.foldl (binary .add) v).isText = true ↔ ∃ w ∈ v :: vs, w.isText = true := by
  induction vs generalizing v with
  | nil => simp
  | cons w vs ih =>
    rw [List.foldl_cons, ih]
    simp only [List.mem_cons, exists_eq_or_imp, isText_add, Bool.or_eq_true, or_assoc]

/-- **A sum is a text if and only if one of its values is.** -/
theorem isText_total (h : vs ≠ []) : (total vs).isText = true ↔ ∃ v ∈ vs, v.isText = true := by
  match vs with
  | [] => exact absurd rfl h
  | v :: vs => exact isText_foldl v vs

theorem total_append (h : vs ≠ []) (ws : List Value) : total (vs ++ ws) = total (total vs :: ws) := by
  match vs with
  | [] => exact absurd rfl h
  | v :: vs => exact List.foldl_append

end Value

/-! ## Computations that succeed -/

variable {σ : Type} {host : Host σ} {globals : Table Value} {s t : σ}

theorem Evaluation.pure_eq_ok_iff {α : Type} {a b : α} :
    (pure a : Evaluation σ α) s = (.ok b, t) ↔ a = b ∧ s = t := by
  show ((.ok a : Except RuntimeError α), s) = (.ok b, t) ↔ _
  rw [Prod.mk.injEq, Except.ok.injEq]

theorem Evaluation.bind_eq_ok_iff {α β : Type} {x : Evaluation σ α} {f : α → Evaluation σ β} {b : β} :
    (x >>= f) s = (.ok b, t) ↔ ∃ a u, x s = (.ok a, u) ∧ f a u = (.ok b, t) := by
  rw [Evaluation.bind_apply]
  rcases x s with ⟨e | a, u⟩
  · constructor
    · exact nofun
    · exact nofun
  · constructor
    · exact fun h => ⟨a, u, rfl, h⟩
    · rintro ⟨a, u, hx, h⟩
      cases hx
      exact h

theorem evalArgs_cons_eq_ok_iff {e : Expr} {es : List Expr} {vs : List Value} :
    evalArgs host globals (e :: es) s = (.ok vs, t) ↔
      ∃ v ws u, e.eval host globals s = (.ok v, u) ∧ evalArgs host globals es u = (.ok ws, t) ∧
        vs = v :: ws := by
  rw [evalArgs, Evaluation.bind_eq_ok_iff]
  constructor
  · rintro ⟨v, u, he, h⟩
    obtain ⟨ws, u', hes, h⟩ := Evaluation.bind_eq_ok_iff.1 h
    obtain ⟨rfl, rfl⟩ := Evaluation.pure_eq_ok_iff.1 h
    exact ⟨v, ws, u, he, hes, rfl⟩
  · rintro ⟨v, ws, u, he, hes, rfl⟩
    exact ⟨v, u, he, Evaluation.bind_eq_ok_iff.2 ⟨ws, t, hes, rfl⟩⟩

theorem evalArgs_append_eq_ok_iff {es fs : List Expr} {vs : List Value} :
    evalArgs host globals (es ++ fs) s = (.ok vs, t) ↔
      ∃ ws xs u, evalArgs host globals es s = (.ok ws, u) ∧
        evalArgs host globals fs u = (.ok xs, t) ∧ vs = ws ++ xs := by
  induction es generalizing s vs with
  | nil =>
    constructor
    · exact fun h => ⟨[], vs, s, rfl, h, rfl⟩
    · rintro ⟨ws, xs, u, hes, hfs, rfl⟩
      cases hes
      exact hfs
  | cons e es ih =>
    rw [List.cons_append, evalArgs_cons_eq_ok_iff]
    constructor
    · rintro ⟨v, rest, u, he, hrest, rfl⟩
      obtain ⟨ws, xs, u', hes, hfs, rfl⟩ := ih.1 hrest
      exact ⟨v :: ws, xs, u', evalArgs_cons_eq_ok_iff.2 ⟨v, ws, u, he, hes, rfl⟩, hfs, rfl⟩
    · rintro ⟨_, xs, u', hboth, hfs, rfl⟩
      obtain ⟨v, ws, u, he, hes, rfl⟩ := evalArgs_cons_eq_ok_iff.1 hboth
      exact ⟨v, ws ++ xs, u, he, ih.2 ⟨ws, xs, u', hes, hfs, rfl⟩, rfl⟩

theorem length_of_evalArgs {es : List Expr} {vs : List Value}
    (h : evalArgs host globals es s = (.ok vs, t)) : vs.length = es.length := by
  induction es generalizing s vs with
  | nil => cases h; rfl
  | cons e es ih =>
    obtain ⟨v, ws, u, -, hes, rfl⟩ := evalArgs_cons_eq_ok_iff.1 h
    rw [List.length_cons, List.length_cons, ih hes]

/-! ## Positions -/

mutual

/-- **Positions do not matter where there is no fault.** -/
theorem Expr.eval_strip_eq_ok_iff {s t : σ} {v : Value} : ∀ e : Expr,
    e.strip.eval host globals s = (.ok v, t) ↔ e.eval host globals s = (.ok v, t)
  | .number _ _ | .string _ _ | .bool _ _ | .null _ => .rfl
  | .var pos name => by
    rw [Expr.strip, Expr.eval, Expr.eval, lookUp, lookUp]
    cases globals.get? name with
    | some w => exact .rfl
    | none =>
      constructor
      · exact nofun
      · exact nofun
  | .unary _ op operand => by
    simp only [Expr.strip, Expr.eval, Evaluation.bind_eq_ok_iff, Expr.eval_strip_eq_ok_iff operand]
  | .binary _ op left right => by
    simp only [Expr.strip, Expr.eval, Evaluation.bind_eq_ok_iff, Expr.eval_strip_eq_ok_iff left]
    refine exists_congr fun a => exists_congr fun u => and_congr_right fun _ => ?_
    split
    · split
      · exact Expr.eval_strip_eq_ok_iff right
      · exact .rfl
    · split
      · exact .rfl
      · exact Expr.eval_strip_eq_ok_iff right
    · simp only [Evaluation.bind_eq_ok_iff, Expr.eval_strip_eq_ok_iff right]
  | .conditional _ test yes no => by
    simp only [Expr.strip, Expr.eval, Evaluation.bind_eq_ok_iff, Expr.eval_strip_eq_ok_iff test]
    refine exists_congr fun a => exists_congr fun u => and_congr_right fun _ => ?_
    split
    · exact Expr.eval_strip_eq_ok_iff yes
    · exact Expr.eval_strip_eq_ok_iff no
  | .call pos callee args => by
    simp only [Expr.strip, Expr.eval, Evaluation.bind_eq_ok_iff, evalArgs_strip_eq_ok_iff args]
    refine exists_congr fun ws => exists_congr fun u => and_congr_right fun _ => ?_
    rw [applyFunction, applyFunction]
    rcases callFunction host u callee ws with ⟨fault | w, u'⟩
    · constructor
      · exact nofun
      · exact nofun
    · exact .rfl

theorem evalArgs_strip_eq_ok_iff {s t : σ} {vs : List Value} : ∀ es : List Expr,
    evalArgs host globals (stripAll es) s = (.ok vs, t) ↔ evalArgs host globals es s = (.ok vs, t)
  | [] => .rfl
  | e :: es => by
    simp only [stripAll, evalArgs_cons_eq_ok_iff, Expr.eval_strip_eq_ok_iff e,
      evalArgs_strip_eq_ok_iff es]

end

theorem stripAll_eq (es : List Expr) : stripAll es = es.map Expr.strip := by
  induction es with
  | nil => rfl
  | cons e es ih => rw [stripAll, ih, List.map_cons]

/-! ## Addends -/

namespace Expr

/-- The operands of a sum that is grouped from the left; an expression that is no sum is its own
only one. -/
def addends : Expr → List Expr
  | .binary _ .add a b => a.addends ++ [b]
  | e => [e]

theorem addends_ne_nil (e : Expr) : e.addends ≠ [] := by
  fun_cases addends e with
  | case1 pos a b => exact List.append_ne_nil_of_right_ne_nil _ nofun
  | case2 => exact nofun

theorem addends_of_not {e : Expr} (h : e.isOf .add = false) : e.addends = [e] := by
  fun_cases addends e with
  | case1 pos a b => cases h
  | case2 => rfl

theorem addends_strip (e : Expr) : e.strip.addends = stripAll e.addends := by
  fun_induction addends e with
  | case1 pos a b ih =>
    rw [strip, addends, ih, stripAll_eq, stripAll_eq, List.map_append, List.map_singleton]
  | case2 e hnot =>
    refine addends_of_not ?_
    cases e with
    | binary pos op a b =>
      cases op with
      | add => exact absurd rfl (hnot pos a b)
      | _ => rfl
    | _ => rfl

/-- Laying out a sum from the left keeps the addends. -/
theorem addends_onto (a b : Expr) : (onto .add a b).addends = a.addends ++ b.addends := by
  fun_induction onto .add a b with
  | case1 pos l r ih => rw [addends, addends, ih, List.append_assoc]
  | case2 pos o l r ho =>
    have hnot : (Expr.binary pos o l r).isOf .add = false := by simpa [isOf] using ho
    rw [addends, addends_of_not hnot]
  | case3 e hother =>
    refine congrArg _ (addends_of_not ?_).symm
    cases e with
    | binary pos o l r => exact absurd rfl (hother pos o l r)
    | _ => rfl

/-- The sum of expressions, grouped from the left, has the addends of all of them. -/
theorem addends_leftward_foldl (a : Expr) (es : List Expr) :
    (es.foldl (.binary .start .add) a).leftward.addends =
      (a :: es).flatMap fun e => e.leftward.addends := by
  induction es generalizing a with
  | nil => exact (List.append_nil _).symm
  | cons e es ih =>
    have honto : (Expr.binary .start .add a e).leftward = onto .add a.leftward e.leftward := rfl
    rw [List.foldl_cons, ih, List.flatMap_cons, List.flatMap_cons, List.flatMap_cons, honto,
      addends_onto, List.append_assoc]

/-- **A sum is evaluated addend by addend**, and the values are added up from the left. -/
theorem eval_eq_ok_iff {e : Expr} {v : Value} :
    e.eval host globals s = (.ok v, t) ↔
      ∃ ws, evalArgs host globals e.addends s = (.ok ws, t) ∧ v = Value.total ws := by
  fun_induction addends e generalizing t v with
  | case1 pos a b ih =>
    have hsum : (Expr.binary pos .add a b).eval host globals s = (.ok v, t) ↔
        ∃ x u y, a.eval host globals s = (.ok x, u) ∧ b.eval host globals u = (.ok y, t) ∧
          v = .binary .add x y := by
      rw [Expr.eval, Evaluation.bind_eq_ok_iff]
      simp only [Evaluation.bind_eq_ok_iff, Evaluation.pure_eq_ok_iff]
      constructor
      · rintro ⟨x, u, hx, y, u', hy, rfl, rfl⟩
        exact ⟨x, u, y, hx, hy, rfl⟩
      · rintro ⟨x, u, y, hx, hy, rfl⟩
        exact ⟨x, u, hx, y, t, hy, rfl, rfl⟩
    rw [hsum]
    constructor
    · rintro ⟨x, u, y, hx, hy, rfl⟩
      obtain ⟨ws, hws, rfl⟩ := ih.1 hx
      refine ⟨ws ++ [y], evalArgs_append_eq_ok_iff.2 ⟨ws, [y], u, hws,
        evalArgs_cons_eq_ok_iff.2 ⟨y, [], t, hy, rfl, rfl⟩, rfl⟩, ?_⟩
      have hne : ws ≠ [] := by
        rw [← List.length_pos_iff, length_of_evalArgs hws, List.length_pos_iff]
        exact a.addends_ne_nil
      rw [Value.total_append hne]
      rfl
    · rintro ⟨ws, hws, rfl⟩
      obtain ⟨xs, _, u, hxs, hlast, rfl⟩ := evalArgs_append_eq_ok_iff.1 hws
      obtain ⟨y, _, u', hy, hnone, rfl⟩ := evalArgs_cons_eq_ok_iff.1 hlast
      cases hnone
      have hne : xs ≠ [] := by
        rw [← List.length_pos_iff, length_of_evalArgs hxs, List.length_pos_iff]
        exact a.addends_ne_nil
      refine ⟨Value.total xs, u, y, ih.2 ⟨xs, hxs, rfl⟩, hy, ?_⟩
      rw [Value.total_append hne]
      rfl
  | case2 e hnot =>
    constructor
    · exact fun h => ⟨[v], evalArgs_cons_eq_ok_iff.2 ⟨v, [], t, h, rfl, rfl⟩, rfl⟩
    · rintro ⟨ws, hws, rfl⟩
      obtain ⟨w, _, u, hw, hnone, rfl⟩ := evalArgs_cons_eq_ok_iff.1 hws
      cases hnone
      exact hw

end Expr

variable (host globals) in
/-- The values of the addends of expressions that are evaluated one after the other, those of each
expression in a list of their own. -/
structure AddendValues (es : List Expr) (s : σ) (wss : List (List Value)) (t : σ) : Prop where
  lengths : List.Forall₂ (fun e ws => ws.length = e.addends.length) es wss
  evaluated : evalArgs host globals (es.flatMap Expr.addends) s = (.ok wss.flatten, t)

/-- **Expressions that are evaluated one after the other** are evaluated addend by addend. -/
theorem evalArgs_addends {es : List Expr} {vs : List Value}
    (h : evalArgs host globals es s = (.ok vs, t)) :
    ∃ wss, AddendValues host globals es s wss t ∧ vs = wss.map Value.total := by
  induction es generalizing s vs with
  | nil =>
    cases h
    exact ⟨[], ⟨.nil, rfl⟩, rfl⟩
  | cons e es ih =>
    obtain ⟨v, rest, u, he, hes, rfl⟩ := evalArgs_cons_eq_ok_iff.1 h
    obtain ⟨ws, hws, rfl⟩ := Expr.eval_eq_ok_iff.1 he
    obtain ⟨wss, ⟨hlengths, hall⟩, rfl⟩ := ih hes
    exact ⟨ws :: wss, ⟨.cons (length_of_evalArgs hws) hlengths,
      evalArgs_append_eq_ok_iff.2 ⟨ws, wss.flatten, u, hws, hall, rfl⟩⟩, rfl⟩

/-- Every expression has an addend. -/
theorem AddendValues.ne_nil {es : List Expr} {wss : List (List Value)}
    (h : AddendValues host globals es s wss t) : ∀ ws ∈ wss, ws ≠ [] := by
  obtain ⟨hlengths, -⟩ := h
  induction hlengths with
  | nil => exact nofun
  | @cons e ws es wss hlength _ ih =>
    refine List.forall_mem_cons.2 ⟨?_, ih⟩
    rw [← List.length_pos_iff, hlength, List.length_pos_iff]
    exact e.addends_ne_nil

end Script
end VisualBlocks

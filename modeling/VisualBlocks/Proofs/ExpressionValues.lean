import VisualBlocks.Proofs.Generation.Precedence
import VisualBlocks.Proofs.Generation.TreeValue
import VisualBlocks.Proofs.Script.Agreement
import VisualBlocks.Sandbox.Capabilities

/-!
# What generated expressions evaluate to

The text of a tree of value blocks has fewer parentheses than the tree has operations inside
operations.  Where the precedences put them back, nothing is lost.  The exceptions of the language
are another matter: sums in sums, products in products, conjunctions in conjunctions and
disjunctions in disjunctions stand without parentheses on the right too, and so they are grouped
from the left.

**The text evaluates to the value of the tree with its chains grouped from the left**
(`expression_value`).  That is the value of the tree itself if its sums and products do not depend
on the grouping, and conjunctions and disjunctions never do.  Sums with a text in them and products
of fractions can depend on it (`grouping_matters`).
-/

set_option autoImplicit false

namespace VisualBlocks

open Script
open Generation (Generator Pass Walkable)

/-! ## Values for the variables of a pass -/

namespace Generation

/-- The variables of a program, each with the value that is given for it. -/
def Pass.globals (p : Pass) (ρ : String → Value) : Table Value :=
  .ofList (p.known.map fun entry => (entry.2, ρ entry.1))

variable {p : Pass}

theorem Pass.Sound.get?_globals (h : p.Sound) (ρ : String → Value) {raw name : String}
    (hknown : p.known.lookup raw = some name) : (p.globals ρ).get? name = some (ρ raw) := by
  refine Table.get?_ofList ?_ (List.mem_map.2 ⟨(raw, name), Table.mem_of_lookup hknown, rfl⟩)
  rw [List.map_map]
  exact h.distinct

/-- A variable whose name is that of a known one is known itself. -/
theorem Pass.Sound.lookup_nameOf (h : p.Sound) {raw other : String}
    (hother : p.known.lookup other = some (p.nameOf raw)) :
    p.known.lookup raw = some (p.nameOf raw) := by
  rw [Pass.nameOf] at hother ⊢
  cases hraw : p.known.lookup raw with
  | some name => rfl
  | none =>
    rw [hraw] at hother
    have hempty : ScriptName "" := h.words (other, "") (Table.mem_of_lookup hother)
    obtain ⟨c, cs, hcs, -⟩ := hempty.word.starts
    cases hcs

end Generation

/-! ## Trees of value blocks -/

namespace BlockTree

variable {t : BlockTree}

/-- The expression of a tree, with the variables under their own names. -/
def rawExpr (t : BlockTree) : Expr := t.expr fun raw => raw

/-- The numbers of a tree of value blocks have digits if they are finite. -/
theorem Finite.not_odd (hfinite : t.Finite) (hstandard : t.Standard) (word : String) :
    ¬ t.Odd word := by
  rintro ⟨b, hb, hword⟩
  have hnumbers : ∀ x ∈ ownNumber? b.2.type b.2.fields, x.isFinite = true := by
    have hnumber := hfinite b hb
    have htype := hstandard b hb
    generalize b.2.type = type at hnumber htype ⊢
    rw [ownNumber?.eq_def]
    split
    · intro x hx
      obtain rfl := Option.some.inj hx
      exact hnumber rfl
    · exact absurd htype (by decide)
    · exact nofun
  rw [oddWords_eq_nil hnumbers] at hword
  cases hword

end BlockTree

namespace Generation

variable {t : BlockTree} {pass : Pass} {e : Expr}

/-- The values that the variables have in the program. -/
def Pass.valueOf (p : Pass) (ρ : String → Value) (name : String) : Value :=
  ((p.globals ρ).get? name).getD .undefined

/-- What an expression in the program of the pass may name. -/
def Pass.valued (p : Pass) (ρ : String → Value) : Scope :=
  ⟨fun x => (p.globals ρ).get? x = some (p.valueOf ρ x), BlockTree.valueScope.functions⟩

/-- The variables of a tree without odd words have values. -/
theorem Pass.Sound.isSome_globals (hsound : pass.Sound) (hodd : ∀ word, ¬ t.Odd word)
    (ρ : String → Value) {x : String} (hx : (pass.scope t.Odd).vars x) :
    (pass.globals ρ).get? x = some (pass.valueOf ρ x) := by
  obtain ⟨raw, hraw⟩ | hword := hx
  · rw [Pass.valueOf, hsound.get?_globals ρ hraw, Option.getD_some]
  · exact absurd hword (hodd x)

/-- An expression that is regrouped from that of a tree has a value in the program. -/
theorem inScope_valued (hsound : pass.Sound) (hodd : ∀ word, ¬ t.Odd word)
    (hscope : e.strip.InScope (pass.scope t.Odd))
    (hregrouped : Regrouped e.strip (t.expr pass.nameOf)) (ρ : String → Value) :
    e.InScope (pass.valued ρ) := by
  have hcallees := hregrouped.inScope_iff.2 (BlockTree.inScope_expr pass.nameOf t)
  refine Expr.inScope_strip.1 ⟨fun x hx => ?_, hcallees.callees⟩
  exact hsound.isSome_globals hodd ρ (hscope.vars x hx)

theorem isSome_builtin : ∀ f, BlockTree.valueScope.functions f → ∀ args,
    (builtin? f args).isSome = true := by
  intro f hf args
  have hnames : f ∈ ["Math.pow", "String"] := hf
  rcases List.mem_pair.1 hnames with rfl | rfl <;> rfl

/-- **The value of the text of a tree**: since the text is grouped from the left, it is the value of
the expression of the tree grouped so. -/
theorem value_of_says (hsound : pass.Sound) (hfinite : t.Finite) (hodd : ∀ word, ¬ t.Odd word)
    (hscope : e.strip.InScope (pass.scope t.Odd)) (hleftward : e.strip.IsLeftward)
    (hregrouped : Regrouped e.strip (t.expr pass.nameOf)) (ρ : String → Value) :
    e.value (pass.valueOf ρ) = t.rawExpr.leftward.value ρ := by
  have hrename : t.expr pass.nameOf = t.rawExpr.rename pass.nameOf := t.expr_rename pass.nameOf hfinite
  have hknown : ∀ raw ∈ t.rawExpr.leftward.vars,
      pass.valueOf ρ (pass.nameOf raw) = ρ raw := by
    intro raw hraw
    have hmem : pass.nameOf raw ∈ (t.expr pass.nameOf).vars := by
      rw [hrename, Expr.vars_rename, ← t.rawExpr.vars_leftward]
      exact List.mem_map_of_mem hraw
    obtain ⟨other, hother⟩ | hword := (hregrouped.inScope_iff.1 hscope).vars _ hmem
    · rw [Pass.valueOf, hsound.get?_globals ρ (hsound.lookup_nameOf hother), Option.getD_some]
    · exact absurd hword (hodd _)
  calc e.value (pass.valueOf ρ)
      = e.strip.leftward.value (pass.valueOf ρ) := by rw [hleftward, Expr.value_strip]
    _ = (t.rawExpr.rename pass.nameOf).leftward.value (pass.valueOf ρ) := by
        rw [hregrouped.leftward_eq, hrename]
    _ = t.rawExpr.leftward.value fun raw => pass.valueOf ρ (pass.nameOf raw) := by
        rw [Expr.leftward_rename, Expr.value_rename]
    _ = t.rawExpr.leftward.value ρ := Expr.value_congr _ hknown

end Generation

open Generation in
/-- **The text of a tree evaluates to the value of the tree with its chains grouped from the left**,
whatever the values of its variables are.  If its sums and products do not depend on how they are
grouped, then that is the value of the tree, unless a zero in it has a minus sign, which its text
lacks. -/
theorem expression_value (v : Vocabulary) (graph : Graph) (t : BlockTree) (hheld : graph.Holds t)
    (hnodup : t.ids.Nodup) (hstandard : t.Standard) (hfinite : t.Finite) (default : String) :
    ∃ code order pass ts stop e,
      v.preset.generator.expression graph (Generator.levels graph) t.id default .start =
          some ((code, order), pass) ∧
        tokenize code = .ok ts ∧ parseExpression ts = .ok (e, [Token.closing stop]) ∧
          ∀ ρ : String → Value,
            (∀ {σ : Type} (host : Host σ) (s : σ), ∃ limit m,
              (e.machine (pass.globals ρ)).run host limit s = (m, s, .done) ∧
                m.stack = [t.rawExpr.leftward.value ρ] ∧ m.globals = pass.globals ρ) ∧
            (t.rawExpr.Settled ρ → t.Legible → t.rawExpr.leftward.value ρ = t.value ρ) := by
  obtain ⟨code, order, pass, hrun, hsound, hvalued⟩ :=
    expression_valued v graph t hheld hnodup hstandard default
  obtain ⟨w, e, hsays, hscope, hmeaning⟩ := hvalued.spelling
  have hregrouped := hmeaning hstandard pass (.refl pass)
  have hodd := hfinite.not_odd hstandard
  obtain ⟨ts, stop, parsed, htokens, hread, rfl⟩ := hsays.parses
  refine ⟨code, order, pass, ts, stop, parsed, hrun, htokens, hread, fun ρ => ⟨?_, fun h hlegible => ?_⟩⟩
  · intro σ host s
    rw [← value_of_says hsound hfinite hodd hscope hsays.isLeftward hregrouped ρ]
    have hinScope := inScope_valued hsound hodd hscope hregrouped ρ
    exact run_of_eval
      (Expr.InScope.eval_eq (S := pass.valued ρ) (fun _ hx => hx) isSome_builtin parsed hinScope s)
  · rw [h.value_leftward, BlockTree.rawExpr, BlockTree.value_expr ρ t hlegible]

/-- The value of the text of an expression without variables, as a machine finds it. -/
def evaluated (code : String) : Option (List Value) := do
  let ts ← (tokenize code).toOption
  let (e, _) ← (parseExpression ts).toOption
  return ((e.machine .empty).run Sandbox.capabilities code.length ⟨.blank 0 0, #[]⟩).1.stack

theorem twiceSum_value :
    ∃ code order pass ts stop e,
      Vocabulary.standard.preset.generator.expression ⟨["product"], twiceSum.blocks⟩
          (Generator.levels ⟨["product"], twiceSum.blocks⟩) twiceSum.id "null" .start =
          some ((code, order), pass) ∧
        tokenize code = .ok ts ∧ parseExpression ts = .ok (e, [Token.closing stop]) ∧
          ∃ limit m, (e.machine (pass.globals fun _ => .number 3)).run Sandbox.capabilities limit
              ⟨.blank 0 0, #[]⟩ = (m, ⟨.blank 0 0, #[]⟩, .done) ∧ m.stack = [.number 6] := by
  have hheld : (⟨["product"], twiceSum.blocks⟩ : Graph).Holds twiceSum := by
    show ∀ b ∈ twiceSum.blocks, List.lookup b.1 twiceSum.blocks = some b.2
    decide
  have hstandard : twiceSum.Standard := by
    show ∀ b ∈ twiceSum.blocks, b.2.type ∈ valueTypes
    decide
  have hfinite : twiceSum.Finite := by
    show ∀ b ∈ twiceSum.blocks, b.2.type = "math_number" →
      (BlockTree.numberIn (b.2.fields.get? "NUM")).isFinite = true
    decide +kernel
  obtain ⟨code, order, pass, ts, stop, e, hrun, htokens, hread, hvalue⟩ :=
    expression_value .standard _ twiceSum hheld (by decide) hstandard hfinite "null"
  refine ⟨code, order, pass, ts, stop, e, hrun, htokens, hread, ?_⟩
  obtain ⟨hmachine, hsettled⟩ := hvalue fun _ => .number 3
  obtain ⟨limit, m, hends, hstack, -⟩ := hmachine Sandbox.capabilities ⟨.blank 0 0, #[]⟩
  refine ⟨limit, m, hends, ?_⟩
  have hlegible : twiceSum.Legible := by
    show ∀ b ∈ twiceSum.blocks, b.2.type = "math_number" →
      (BlockTree.numberIn (b.2.fields.get? "NUM")).isFinite = true ∧
        ((BlockTree.numberIn (b.2.fields.get? "NUM") == 0) = true →
          Number.isNegative (BlockTree.numberIn (b.2.fields.get? "NUM")) = false)
    decide +kernel
  have hsix : twiceSum.value (fun _ => .number 3) = .number 6 := by decide +kernel
  rw [hstack, hsettled ⟨trivial, ⟨trivial, trivial, fun _ => trivial⟩, fun _ => nofun⟩ hlegible,
    hsix]

/-- An operation on an operand and the same operation on two more. -/
def nested (op : String) (a b c : BlockTree) : BlockTree :=
  .mk "outer" "math_arithmetic" ⟨[("OP", op)]⟩ .empty
    [("A", a), ("B", .mk "inner" "math_arithmetic" ⟨[("OP", op)]⟩ .empty [("A", b), ("B", c)] none)]
    none

/-- A number. -/
def numberLeaf (id text : String) : BlockTree :=
  .mk id "math_number" ⟨[("NUM", text)]⟩ .empty [] none

/-- A sum with a text in it. -/
def mixedSum : BlockTree :=
  nested "ADD" (numberLeaf "1" "1") (numberLeaf "2" "2")
    (.mk "3" "text" ⟨[("TEXT", "a")]⟩ .empty [] none)

/-- A product of fractions. -/
def fractions : BlockTree :=
  nested "MULTIPLY" (numberLeaf "1" "0.1") (numberLeaf "2" "0.2") (numberLeaf "3" "0.3")

/-- **Grouping matters** to a sum with a text in it, and to a product of numbers: the text of the
tree does not have the value of the tree. -/
theorem grouping_matters :
    (Vocabulary.standard.preset.generator.expression ⟨["outer"], mixedSum.blocks⟩
          (Generator.levels ⟨["outer"], mixedSum.blocks⟩) "outer" "null" .start =
        some (("1 + 2 + 'a'", .addition), .start) ∧
      evaluated "1 + 2 + 'a'" = some [.string "3a"] ∧
      mixedSum.value (fun _ => .undefined) = .string "12a") ∧
    Vocabulary.standard.preset.generator.expression ⟨["outer"], fractions.blocks⟩
          (Generator.levels ⟨["outer"], fractions.blocks⟩) "outer" "null" .start =
        some (("0.1 * 0.2 * 0.3", .multiplication), .start) ∧
      evaluated "0.1 * 0.2 * 0.3" ≠ some [fractions.value fun _ => .undefined] :=
  ⟨⟨by decide +kernel, by decide +kernel, by decide +kernel⟩, by decide +kernel, by decide +kernel⟩

end VisualBlocks

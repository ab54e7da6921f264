import VisualBlocks.Proofs.Script.StatementGrammar

/-!
# Outlines of programs

The outline of a statement is its form: what is nested in what, without expressions, names and
positions.
-/

set_option autoImplicit false

namespace VisualBlocks
namespace Script

/-- The form of a statement. -/
inductive Outline where
  | declare
  | assign
  | expr
  | ifElse (branches : List (List Outline)) (otherwise : List Outline)
  | whileLoop (body : List Outline)
  | forLoop (body : List Outline)
deriving Repr, Inhabited

mutual

/-- The outline of a statement. -/
def Statement.outline : Statement → Outline
  | .declare _ _ => .declare
  | .assign _ _ _ _ => .assign
  | .expr _ _ => .expr
  | .ifElse _ branches otherwise => .ifElse (branchOutlines branches) (outlines otherwise)
  | .whileLoop _ _ body => .whileLoop (outlines body)
  | .forLoop _ _ _ _ body => .forLoop (outlines body)

/-- The outlines of statements. -/
def outlines : List Statement → List Outline
  | [] => []
  | s :: ss => s.outline :: outlines ss

/-- The outlines of what stands under conditions. -/
def branchOutlines : List (Expr × List Statement) → List (List Outline)
  | [] => []
  | (_, body) :: rest => outlines body :: branchOutlines rest

end

theorem outlines_append (ss ts : List Statement) :
    outlines (ss ++ ts) = outlines ss ++ outlines ts := by
  induction ss with
  | nil => rfl
  | cons s ss ih => rw [List.cons_append, outlines, outlines, ih, List.cons_append]

theorem branchOutlines_parts (bs : List Branch) :
    branchOutlines (bs.map Branch.parts) = bs.map fun b => outlines b.body := by
  induction bs with
  | nil => rfl
  | cons b bs ih => rw [List.map_cons, List.map_cons, Branch.parts, branchOutlines, ih]

/-! ## Positions do not matter -/

mutual

/-- Positions are no part of the outline. -/
theorem outline_strip : ∀ s : Statement, s.strip.outline = s.outline
  | .declare _ _ => rfl
  | .assign _ _ _ _ => rfl
  | .expr _ _ => rfl
  | .ifElse _ branches otherwise => by
    rw [Statement.strip, Statement.outline, Statement.outline, branchOutlines_strip branches,
      outlines_strip otherwise]
  | .whileLoop _ _ body => by
    rw [Statement.strip, Statement.outline, Statement.outline, outlines_strip body]
  | .forLoop _ _ _ _ body => by
    rw [Statement.strip, Statement.outline, Statement.outline, outlines_strip body]

theorem outlines_strip : ∀ ss : List Statement, outlines (stripStatements ss) = outlines ss
  | [] => rfl
  | s :: ss => by
    rw [stripStatements, outlines, outlines, outline_strip s, outlines_strip ss]

theorem branchOutlines_strip :
    ∀ bs : List (Expr × List Statement), branchOutlines (stripBranches bs) = branchOutlines bs
  | [] => rfl
  | (condition, body) :: rest => by
    rw [stripBranches, branchOutlines, branchOutlines, outlines_strip body,
      branchOutlines_strip rest]

end

end Script
end VisualBlocks

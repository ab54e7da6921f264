import VisualBlocks.Proofs.Script.Compilation

/-!
# Where code points

The positions of the instructions of a piece are those of the expressions and statements that it was
made of.  What the instructions are depends on where the piece stands, so `Located S make` says of a
piece of code that, wherever it is put, it points into `S`; `Within` says it of the code of an
expression, of a statement and of lists of them.

There is one lemma for each construct: its code points into `S` when that of its parts does and its
own position is in `S`.
-/

set_option autoImplicit false

namespace VisualBlocks
namespace Script

/-- The positions of the instructions are in `S`. -/
def PointsInto (S : Position → Prop) (code : Code) : Prop := ∀ i ∈ code, S i.pos

/-- The code points into `S` wherever it is put. -/
def Located (S : Position → Prop) (make : Nat → Code) : Prop := ∀ place, PointsInto S (make place)

variable {S : Position → Prop} {pos : Position}

@[simp] theorem pointsInto_nil : PointsInto S [] := fun _ hi => absurd hi List.not_mem_nil

@[simp] theorem pointsInto_cons {i : Instr} {code : Code} :
    PointsInto S (i :: code) ↔ S i.pos ∧ PointsInto S code := List.forall_mem_cons

@[simp] theorem pointsInto_append {c d : Code} :
    PointsInto S (c ++ d) ↔ PointsInto S c ∧ PointsInto S d := List.forall_mem_append

/-! ## Expressions -/

/-- The code of an expression points into `S`. -/
def Expr.Within (S : Position → Prop) (e : Expr) : Prop := Located S fun place => e.code place

/-- The code of arguments points into `S`. -/
def ArgsWithin (S : Position → Prop) (es : List Expr) : Prop :=
  Located S fun place => argsCode place es

namespace Expr

/-- An expression of one instruction. -/
theorem Within.leaf (h : S pos) {e : Expr} {op : Op} (he : ∀ place, e.code place = [⟨op, pos⟩]) :
    e.Within S := by
  intro place
  simp [he, h]

theorem Within.number (h : S pos) (x : Float) : (Expr.number pos x).Within S :=
  .leaf h fun _ => rfl

theorem Within.string (h : S pos) (s : String) : (Expr.string pos s).Within S :=
  .leaf h fun _ => rfl

theorem Within.bool (h : S pos) (b : Bool) : (Expr.bool pos b).Within S := .leaf h fun _ => rfl

theorem Within.null (h : S pos) : (Expr.null pos).Within S := .leaf h fun _ => rfl

theorem Within.var (h : S pos) (name : String) : (Expr.var pos name).Within S :=
  .leaf h fun _ => rfl

theorem Within.unary (h : S pos) (op : UnaryOp) {e : Expr} (he : e.Within S) :
    (Expr.unary pos op e).Within S := by
  intro place
  simp [code, h, he place]

theorem Within.binary (h : S pos) (op : BinaryOp) {l r : Expr} (hl : l.Within S)
    (hr : r.Within S) : (Expr.binary pos op l r).Within S := by
  intro place
  cases op <;> simp [code, h, hl place, hr _]

theorem Within.conditional (h : S pos) {test yes no : Expr} (ht : test.Within S)
    (hy : yes.Within S) (hn : no.Within S) : (Expr.conditional pos test yes no).Within S := by
  intro place
  simp [code, h, ht place, hy _, hn _]

theorem Within.call (h : S pos) (callee : String) {args : List Expr} (ha : ArgsWithin S args) :
    (Expr.call pos callee args).Within S := by
  intro place
  simp [code, h, ha place]

end Expr

theorem ArgsWithin.nil : ArgsWithin S [] := fun _ => pointsInto_nil

theorem ArgsWithin.cons {e : Expr} {es : List Expr} (he : e.Within S) (hes : ArgsWithin S es) :
    ArgsWithin S (e :: es) := by
  intro place
  simp [argsCode, he place, hes _]

/-! ## Statements -/

/-- The code of a declaration points into `S`, its own position apart. -/
def DeclareWithin (S : Position → Prop) (names : List (String × Option Expr)) : Prop :=
  ∀ pos, S pos → Located S fun place => declareCode pos place names

/-- The code of a statement points into `S`. -/
def Statement.Within (S : Position → Prop) (s : Statement) : Prop :=
  Located S fun place => s.code place

/-- The code of a body points into `S`. -/
def BodyWithin (S : Position → Prop) (ss : List Statement) : Prop :=
  Located S fun place => bodyCode place ss

/-- The code of branches points into `S`, its own position apart. -/
def BranchesWithin (S : Position → Prop) (branches : List (Expr × List Statement))
    (otherwise : List Statement) : Prop :=
  ∀ pos, S pos →
    Located S fun place => branchesCode pos (fun place => bodyCode place otherwise) place branches

theorem DeclareWithin.nil : DeclareWithin S [] := fun _ _ _ => pointsInto_nil

theorem DeclareWithin.cons (name : String) {init : Option Expr} (hi : ∀ e ∈ init, e.Within S)
    {names : List (String × Option Expr)} (hn : DeclareWithin S names) :
    DeclareWithin S ((name, init) :: names) := by
  intro pos h place
  cases init with
  | none => simp [declareCode, h, hn pos h _]
  | some e => simp [declareCode, h, hi e rfl place, hn pos h _]

theorem BranchesWithin.cons {condition : Expr} {body otherwise : List Statement}
    {rest : List (Expr × List Statement)} (hc : condition.Within S) (hb : BodyWithin S body)
    (hr : BranchesWithin S rest otherwise) :
    BranchesWithin S ((condition, body) :: rest) otherwise := by
  intro pos h place
  simp [branchesCode, h, hc place, hb _, hr pos h _]

namespace Statement

theorem Within.declare (h : S pos) {names : List (String × Option Expr)}
    (hn : DeclareWithin S names) : (Statement.declare pos names).Within S := by
  intro place
  simpa only [code] using hn pos h place

theorem Within.ifElse (h : S pos) {branches : List (Expr × List Statement)}
    {otherwise : List Statement} (hb : BranchesWithin S branches otherwise) :
    (Statement.ifElse pos branches otherwise).Within S := by
  intro place
  simpa only [code] using hb pos h place

theorem Within.assign (h : S pos) (name : String) (op : AssignOp) {value : Expr}
    (hv : value.Within S) : (Statement.assign pos name op value).Within S := by
  intro place
  cases op <;> simp [code, assignCode, h, hv _]

theorem Within.expr (h : S pos) {value : Expr} (hv : value.Within S) :
    (Statement.expr pos value).Within S := by
  intro place
  simp [code, h, hv place]

theorem Within.whileLoop (h : S pos) {condition : Expr} {body : List Statement}
    (hc : condition.Within S) (hb : BodyWithin S body) :
    (Statement.whileLoop pos condition body).Within S := by
  intro place
  simp [code, h, hc place, hb _]

theorem Within.forLoop (h : S pos) {init update : Option Statement} {condition : Option Expr}
    {body : List Statement} (hi : ∀ s ∈ init, s.Within S) (hc : ∀ e ∈ condition, e.Within S)
    (hu : ∀ s ∈ update, s.Within S) (hb : BodyWithin S body) :
    (Statement.forLoop pos init condition update body).Within S := by
  have hoption : ∀ {part : Option Statement}, (∀ s ∈ part, s.Within S) →
      ∀ place, PointsInto S (optionCode place part) := fun {part} hp place => by
    cases part with
    | none => exact pointsInto_nil
    | some s => exact hp s rfl place
  intro place
  cases condition with
  | none => simp [code, h, hoption hi place, hb _, hoption hu _]
  | some e => simp [code, h, hoption hi place, hc e rfl _, hb _, hoption hu _]

end Statement

theorem BodyWithin.cons {s : Statement} {ss : List Statement} (hs : s.Within S)
    (hss : BodyWithin S ss) : BodyWithin S (s :: ss) := by
  intro place
  simp [bodyCode, hs place, hss _]

theorem BodyWithin.append {ss ts : List Statement} (hs : BodyWithin S ss) (ht : BodyWithin S ts) :
    BodyWithin S (ss ++ ts) := by
  intro place
  simp [bodyCode_append, hs place, ht _]

theorem BodyWithin.nil : BodyWithin S [] := fun _ => pointsInto_nil

theorem BodyWithin.single {s : Statement} (hs : s.Within S) : BodyWithin S [s] := .cons hs .nil

end Script
end VisualBlocks

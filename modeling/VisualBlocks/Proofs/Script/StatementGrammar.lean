import VisualBlocks.Proofs.Script.Grammar

/-!
# How statements are written

The grammar of statements, over the grammar of expressions.

* `Statement.strip` is a statement without positions.
* `Simple w s`: written as `w`, without a semicolon, `s` is an assignment, a step by one or an
  expression.
* `Declares w ds`: written as `w`, the variables `ds` are declared.
* `Writes w ss`: written as `w`, the statements `ss` stand one after the other.  Bodies stand in
  braces.
-/

set_option autoImplicit false

namespace VisualBlocks
namespace Script

/-! ## Without positions -/

mutual

/-- The statement with all positions at the start. -/
def Statement.strip : Statement → Statement
  | .declare _ names => .declare .start (names.map fun d => (d.1, d.2.map Expr.strip))
  | .assign _ name op value => .assign .start name op value.strip
  | .expr _ value => .expr .start value.strip
  | .ifElse _ branches otherwise =>
    .ifElse .start (stripBranches branches) (stripStatements otherwise)
  | .whileLoop _ condition body => .whileLoop .start condition.strip (stripStatements body)
  | .forLoop _ init condition update body =>
    .forLoop .start (stripOption init) (condition.map Expr.strip) (stripOption update)
      (stripStatements body)

/-- The statements with all positions at the start. -/
def stripStatements : List Statement → List Statement
  | [] => []
  | s :: ss => s.strip :: stripStatements ss

/-- The statement with all positions at the start, if there is one. -/
def stripOption : Option Statement → Option Statement
  | none => none
  | some s => some s.strip

/-- The branches with all positions at the start. -/
def stripBranches : List (Expr × List Statement) → List (Expr × List Statement)
  | [] => []
  | (condition, body) :: rest => (condition.strip, stripStatements body) :: stripBranches rest

end

/-! ## Statements without parts -/

/-- How an assignment is spelt. -/
def AssignOp.symbol : AssignOp → String
  | .set => "="
  | .add => "+="
  | .sub => "-="

/-- How a step by one is spelt, which there is for the assignments that change the old value. -/
def AssignOp.stepSymbol? : AssignOp → Option String
  | .set => none
  | .add => some "++"
  | .sub => some "--"

/-- The operators that make an assignment out of a name before them. -/
def assignSymbols : List String := ["=", "+=", "++", "-=", "--"]

/-- The statement that is written so, without a semicolon after it. -/
inductive Simple : List Lexeme → Statement → Prop
  | assign (name : String) (op : AssignOp) {w : List Lexeme} {e : Expr} (h : Spells 0 w e) :
      Simple (.name name :: .operator op.symbol :: w) (.assign .start name op e)
  | step (name : String) {op : AssignOp} {symbol : String} (h : op.stepSymbol? = some symbol) :
      Simple [.name name, .operator symbol] (.assign .start name op (.number .start 1))
  | expr {w : List Lexeme} {e : Expr} (h : Spells 0 w e) : Simple w (.expr .start e)

/-- The variable that is declared so, with a first value or without one. -/
inductive Declarator : List Lexeme → String × Option Expr → Prop
  | bare (name : String) : Declarator [.name name] (name, none)
  | init (name : String) {w : List Lexeme} {e : Expr} (h : Spells 0 w e) :
      Declarator (.name name :: .operator "=" :: w) (name, some e)

/-- The variables that are declared so. -/
inductive Declares : List Lexeme → List (String × Option Expr) → Prop
  | last {w : List Lexeme} {d : String × Option Expr} (h : Declarator w d) : Declares w [d]
  | more {v w : List Lexeme} {d : String × Option Expr} {ds : List (String × Option Expr)}
      (hd : Declarator v d) (hds : Declares w ds) : Declares (v ++ .comma :: w) (d :: ds)

/-- What a loop is initialised with. -/
inductive Initialises : List Lexeme → Option Statement → Prop
  | absent : Initialises [] none
  | simple {w : List Lexeme} {s : Statement} (h : Simple w s) : Initialises w (some s)
  | declare {w : List Lexeme} {ds : List (String × Option Expr)} (h : Declares w ds) :
      Initialises (.keyword "var" :: w) (some (.declare .start ds))

/-- The condition of a loop. -/
inductive Conditions : List Lexeme → Option Expr → Prop
  | absent : Conditions [] none
  | present {w : List Lexeme} {e : Expr} (h : Spells 0 w e) : Conditions w (some e)

/-- What a loop does after each round. -/
inductive Updates : List Lexeme → Option Statement → Prop
  | absent : Updates [] none
  | present {w : List Lexeme} {s : Statement} (h : Simple w s) : Updates w (some s)

/-! ## Statements with parts -/

/-- A condition and the statements under it, as they are written and what they are. -/
structure Branch where
  conditionText : List Lexeme
  condition : Expr
  bodyText : List Lexeme
  body : List Statement

namespace Branch

/-- How a branch is written. -/
def text (b : Branch) : List Lexeme :=
  .keyword "if" :: .leftParen :: (b.conditionText ++ .rightParen :: .leftBrace ::
    (b.bodyText ++ [.rightBrace]))

/-- What a branch is. -/
def parts (b : Branch) : Expr × List Statement := (b.condition, b.body)

end Branch

/-- How further branches are written. -/
def elseIfs : List Branch → List Lexeme
  | [] => []
  | b :: bs => .keyword "else" :: (b.text ++ elseIfs bs)

/-- How the statements for all other cases are written, if there are any. -/
def elseText : Option (List Lexeme × List Statement) → List Lexeme
  | none => []
  | some (w, _) => .keyword "else" :: .leftBrace :: (w ++ [.rightBrace])

/-- The statements for all other cases. -/
def elseBody : Option (List Lexeme × List Statement) → List Statement
  | none => []
  | some (_, ss) => ss

/-- The statements that are written so, one after the other. -/
inductive Writes : List Lexeme → List Statement → Prop
  | nil : Writes [] []
  | simple {v w : List Lexeme} {s : Statement} {ss : List Statement} (hs : Simple v s)
      (hrest : Writes w ss) : Writes (v ++ .semicolon :: w) (s :: ss)
  | declare {v w : List Lexeme} {ds : List (String × Option Expr)} {ss : List Statement}
      (hds : Declares v ds) (hrest : Writes w ss) :
      Writes (.keyword "var" :: (v ++ .semicolon :: w)) (.declare .start ds :: ss)
  | ifElse {first : Branch} {more : List Branch}
      {otherwise : Option (List Lexeme × List Statement)} {w : List Lexeme} {ss : List Statement}
      (hconditions : ∀ b ∈ first :: more, Spells 0 b.conditionText b.condition)
      (hbodies : ∀ b ∈ first :: more, Writes b.bodyText b.body)
      (hotherwise : ∀ o ∈ otherwise, Writes o.1 o.2) (hrest : Writes w ss) :
      Writes (first.text ++ (elseIfs more ++ (elseText otherwise ++ w)))
        (.ifElse .start ((first :: more).map Branch.parts) (elseBody otherwise) :: ss)
  | whileLoop {u v w : List Lexeme} {condition : Expr} {body ss : List Statement}
      (hcondition : Spells 0 u condition) (hbody : Writes v body) (hrest : Writes w ss) :
      Writes (.keyword "while" :: .leftParen :: (u ++ .rightParen :: .leftBrace ::
          (v ++ .rightBrace :: w)))
        (.whileLoop .start condition body :: ss)
  | forLoop {s t u v w : List Lexeme} {init update : Option Statement} {condition : Option Expr}
      {body ss : List Statement} (hinit : Initialises s init) (hcondition : Conditions t condition)
      (hupdate : Updates u update) (hbody : Writes v body) (hrest : Writes w ss) :
      Writes (.keyword "for" :: .leftParen :: (s ++ .semicolon :: (t ++ .semicolon ::
          (u ++ .rightParen :: .leftBrace :: (v ++ .rightBrace :: w)))))
        (.forLoop .start init condition update body :: ss)

/-- **What is written one after the other is done one after the other.** -/
theorem Writes.append {v w : List Lexeme} {ss ts : List Statement} (hv : Writes v ss)
    (hw : Writes w ts) : Writes (v ++ w) (ss ++ ts) := by
  induction hv with
  | nil => exact hw
  | simple hs _ ih =>
    rw [List.append_assoc]
    exact .simple hs ih
  | declare hds _ ih =>
    rw [List.cons_append, List.append_assoc]
    exact .declare hds ih
  | ifElse hconditions hbodies hotherwise _ _ _ ih =>
    rw [List.append_assoc, List.append_assoc, List.append_assoc]
    exact .ifElse hconditions hbodies hotherwise ih
  | whileLoop hcondition hbody _ _ ih =>
    simp only [List.cons_append, List.append_assoc]
    exact .whileLoop hcondition hbody ih
  | forLoop hinit hcondition hupdate hbody _ _ ih =>
    simp only [List.cons_append, List.append_assoc]
    exact .forLoop hinit hcondition hupdate hbody ih

end Script
end VisualBlocks

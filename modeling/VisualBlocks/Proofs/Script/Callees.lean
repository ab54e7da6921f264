import VisualBlocks.Proofs.Script.StatementGrammar
import VisualBlocks.Script.Code

/-!
# What a program calls

A program can only call the functions that it names.  The functions that a program calls are said
three times over: by its syntax (`bodyCallees`), by its code (`codeCallees`), which calls **the same
functions in the same order** (`codeCallees_body`), and by its text, in which each of them stands as
a name (`Writes.named`).
-/

set_option autoImplicit false

namespace VisualBlocks
namespace Script

/-! ## Syntax -/

mutual

/-- The functions that an expression calls, in the order of evaluation. -/
def Expr.callees : Expr → List String
  | .number _ _ | .string _ _ | .bool _ _ | .null _ | .var _ _ => []
  | .unary _ _ operand => operand.callees
  | .binary _ _ left right => left.callees ++ right.callees
  | .conditional _ test yes no => test.callees ++ (yes.callees ++ no.callees)
  | .call _ callee args => argCallees args ++ [callee]

/-- The functions that the arguments of a call call. -/
def argCallees : List Expr → List String
  | [] => []
  | e :: es => e.callees ++ argCallees es

end

/-- The functions that an expression calls, if there is one. -/
def Expr.optionCallees : Option Expr → List String
  | none => []
  | some e => e.callees

/-- The functions that the first values of variables call. -/
def declareCallees : List (String × Option Expr) → List String
  | [] => []
  | (_, e) :: rest => Expr.optionCallees e ++ declareCallees rest

mutual

/-- The functions that a statement calls. -/
def Statement.callees : Statement → List String
  | .declare _ names => declareCallees names
  | .assign _ _ _ value => value.callees
  | .expr _ value => value.callees
  | .ifElse _ branches otherwise => branchCallees branches ++ bodyCallees otherwise
  | .whileLoop _ condition body => condition.callees ++ bodyCallees body
  | .forLoop _ init condition update body =>
    optionCallees init ++ (Expr.optionCallees condition ++ (bodyCallees body ++ optionCallees update))

/-- The functions that statements call. -/
def bodyCallees : List Statement → List String
  | [] => []
  | s :: ss => s.callees ++ bodyCallees ss

/-- The functions that a statement calls, if there is one. -/
def optionCallees : Option Statement → List String
  | none => []
  | some s => s.callees

/-- The functions that branches call. -/
def branchCallees : List (Expr × List Statement) → List String
  | [] => []
  | (condition, body) :: rest => condition.callees ++ (bodyCallees body ++ branchCallees rest)

end

/-! ## Positions do not matter -/

mutual

theorem Expr.callees_strip : ∀ e : Expr, e.strip.callees = e.callees
  | .number _ _ => rfl
  | .string _ _ => rfl
  | .bool _ _ => rfl
  | .null _ => rfl
  | .var _ _ => rfl
  | .unary _ _ operand => by
    rw [Expr.strip, Expr.callees, Expr.callees, Expr.callees_strip operand]
  | .binary _ _ left right => by
    rw [Expr.strip, Expr.callees, Expr.callees, Expr.callees_strip left, Expr.callees_strip right]
  | .conditional _ test yes no => by
    rw [Expr.strip, Expr.callees, Expr.callees, Expr.callees_strip test, Expr.callees_strip yes,
      Expr.callees_strip no]
  | .call _ callee args => by
    rw [Expr.strip, Expr.callees, Expr.callees, argCallees_strip args]

theorem argCallees_strip : ∀ es : List Expr, argCallees (stripAll es) = argCallees es
  | [] => rfl
  | e :: es => by
    rw [stripAll, argCallees, argCallees, Expr.callees_strip e, argCallees_strip es]

end

theorem Expr.optionCallees_strip (e : Option Expr) :
    Expr.optionCallees (e.map Expr.strip) = Expr.optionCallees e := by
  cases e with
  | none => rfl
  | some e => exact e.callees_strip

theorem declareCallees_strip (names : List (String × Option Expr)) :
    declareCallees (names.map fun d => (d.1, d.2.map Expr.strip)) = declareCallees names := by
  induction names with
  | nil => rfl
  | cons d ds ih =>
    rw [List.map_cons, declareCallees, declareCallees, ih, Expr.optionCallees_strip]

mutual

theorem Statement.callees_strip : ∀ s : Statement, s.strip.callees = s.callees
  | .declare _ names => by
    rw [Statement.strip, Statement.callees, Statement.callees, declareCallees_strip]
  | .assign _ _ _ value => by
    rw [Statement.strip, Statement.callees, Statement.callees, value.callees_strip]
  | .expr _ value => by
    rw [Statement.strip, Statement.callees, Statement.callees, value.callees_strip]
  | .ifElse _ branches otherwise => by
    rw [Statement.strip, Statement.callees, Statement.callees, branchCallees_strip branches,
      bodyCallees_strip otherwise]
  | .whileLoop _ condition body => by
    rw [Statement.strip, Statement.callees, Statement.callees, condition.callees_strip,
      bodyCallees_strip body]
  | .forLoop _ init condition update body => by
    rw [Statement.strip, Statement.callees, Statement.callees, optionCallees_strip init,
      Expr.optionCallees_strip, optionCallees_strip update, bodyCallees_strip body]

/-- Positions do not matter for what is called. -/
theorem bodyCallees_strip : ∀ ss : List Statement,
    bodyCallees (stripStatements ss) = bodyCallees ss
  | [] => rfl
  | s :: ss => by
    rw [stripStatements, bodyCallees, bodyCallees, s.callees_strip, bodyCallees_strip ss]

theorem optionCallees_strip : ∀ s : Option Statement, optionCallees (stripOption s) = optionCallees s
  | none => rfl
  | some s => by rw [stripOption, optionCallees, optionCallees, s.callees_strip]

theorem branchCallees_strip : ∀ bs : List (Expr × List Statement),
    branchCallees (stripBranches bs) = branchCallees bs
  | [] => rfl
  | (condition, body) :: rest => by
    rw [stripBranches, branchCallees, branchCallees, condition.callees_strip,
      bodyCallees_strip body, branchCallees_strip rest]

end

/-! ## Code -/

/-- The function that an instruction calls. -/
def Op.callee? : Op → Option String
  | .call callee _ => some callee
  | _ => none

/-- The functions that the instructions call. -/
def codeCallees (c : Code) : List String := c.filterMap fun i => i.op.callee?

@[simp] theorem codeCallees_nil : codeCallees [] = [] := rfl

@[simp] theorem codeCallees_cons (op : Op) (pos : Position) (c : Code) :
    codeCallees (⟨op, pos⟩ :: c) = op.callee?.toList ++ codeCallees c := by
  rw [codeCallees, List.filterMap_cons]
  cases op.callee? <;> rfl

@[simp] theorem codeCallees_append (c d : Code) :
    codeCallees (c ++ d) = codeCallees c ++ codeCallees d := List.filterMap_append

mutual

theorem codeCallees_expr (e : Expr) (place : Nat) : codeCallees (e.code place) = e.callees := by
  match e with
  | .number _ _ | .string _ _ | .bool _ _ | .null _ | .var _ _ => rfl
  | .unary _ _ operand => simp [Expr.code, Expr.callees, codeCallees_expr operand, Op.callee?]
  | .binary _ op left right =>
    have hleft := codeCallees_expr left
    have hright := codeCallees_expr right
    cases op <;> simp [Expr.code, Expr.callees, hleft, hright, Op.callee?]
  | .conditional _ test yes no =>
    simp [Expr.code, Expr.callees, codeCallees_expr test, codeCallees_expr yes,
      codeCallees_expr no, Op.callee?]
  | .call _ callee args =>
    simp [Expr.code, Expr.callees, codeCallees_args args, Op.callee?]

theorem codeCallees_args (es : List Expr) (place : Nat) :
    codeCallees (argsCode place es) = argCallees es := by
  match es with
  | [] => rfl
  | e :: es => simp [argsCode, argCallees, codeCallees_expr e, codeCallees_args es]

end

theorem codeCallees_declare (pos : Position) (names : List (String × Option Expr)) (place : Nat) :
    codeCallees (declareCode pos place names) = declareCallees names := by
  induction names generalizing place with
  | nil => rfl
  | cons d ds ih =>
    obtain ⟨name, e⟩ := d
    cases e with
    | none => simp [declareCode, declareCallees, Expr.optionCallees, ih, Op.callee?]
    | some e =>
      simp [declareCode, declareCallees, Expr.optionCallees, codeCallees_expr, ih, Op.callee?]

theorem codeCallees_assign (pos : Position) (place : Nat) (name : String) (value : Expr)
    (op : AssignOp) : codeCallees (assignCode pos place name value op) = value.callees := by
  cases op <;> simp [assignCode, codeCallees_expr, Op.callee?]

mutual

theorem codeCallees_statement (s : Statement) (place : Nat) :
    codeCallees (s.code place) = s.callees := by
  match s with
  | .declare pos names => rw [Statement.code, codeCallees_declare, Statement.callees]
  | .assign pos name op value => rw [Statement.code, codeCallees_assign, Statement.callees]
  | .expr _ value => simp [Statement.code, Statement.callees, codeCallees_expr, Op.callee?]
  | .ifElse pos branches otherwise =>
    rw [Statement.code, Statement.callees]
    exact codeCallees_branches branches pos (codeCallees_body otherwise) place
  | .whileLoop _ condition body =>
    simp [Statement.code, Statement.callees, codeCallees_expr, codeCallees_body body, Op.callee?]
  | .forLoop _ init condition update body =>
    have hinit := codeCallees_option init
    have hupdate := codeCallees_option update
    have hbody := codeCallees_body body
    cases condition <;>
      simp [Statement.code, Statement.callees, Expr.optionCallees, codeCallees_expr, hinit,
        hupdate, hbody, Op.callee?]

/-- **The code of statements calls what the statements call**, in the same order. -/
theorem codeCallees_body (ss : List Statement) (place : Nat) :
    codeCallees (bodyCode place ss) = bodyCallees ss := by
  match ss with
  | [] => rfl
  | s :: ss => simp [bodyCode, bodyCallees, codeCallees_statement s, codeCallees_body ss]

theorem codeCallees_option (s : Option Statement) (place : Nat) :
    codeCallees (optionCode place s) = optionCallees s := by
  match s with
  | none => rfl
  | some s => rw [optionCode, optionCallees, codeCallees_statement s]

theorem codeCallees_branches (bs : List (Expr × List Statement)) (pos : Position)
    {otherwise : Nat → Code} {callees : List String}
    (hotherwise : ∀ place, codeCallees (otherwise place) = callees) (place : Nat) :
    codeCallees (branchesCode pos otherwise place bs) = branchCallees bs ++ callees := by
  match bs with
  | [] => rw [branchesCode, hotherwise, branchCallees, List.nil_append]
  | (condition, body) :: rest =>
    simp [branchesCode, branchCallees, codeCallees_expr, codeCallees_body body,
      codeCallees_branches rest pos hotherwise, Op.callee?]

end

/-! ## Text -/

/-- Does each of the functions stand as a name in the text? -/
def Named (callees : List String) (w : List Lexeme) : Prop := ∀ f ∈ callees, Lexeme.name f ∈ w

namespace Named

variable {fs gs : List String} {v w : List Lexeme}

theorem nil (w : List Lexeme) : Named [] w := nofun

theorem append (hf : Named fs w) (hg : Named gs w) : Named (fs ++ gs) w :=
  fun f hmem => (List.mem_append.1 hmem).elim (hf f) (hg f)

theorem mono (h : Named fs v) (hsub : v ⊆ w) : Named fs w := fun f hf => hsub (h f hf)

end Named

theorem subset_separated {parts : List (List Lexeme)} {w : List Lexeme} (h : w ∈ parts) :
    w ⊆ separated parts := by
  induction parts with
  | nil => cases h
  | cons v vs ih =>
    cases vs with
    | nil =>
      rw [List.mem_singleton.1 h, separated]
      exact List.Subset.refl v
    | cons u us =>
      rw [separated]
      rcases List.mem_cons.1 h with rfl | h
      · exact List.subset_append_left _ _
      · exact fun l hl => List.mem_append_right _ (List.mem_cons_of_mem _ (ih h hl))

theorem exists_of_mem_argCallees {f : String} {es : List Expr} (h : f ∈ argCallees es) :
    ∃ e ∈ es, f ∈ e.callees := by
  induction es with
  | nil => cases h
  | cons e es ih =>
    rcases List.mem_append.1 h with h | h
    · exact ⟨e, List.mem_cons_self, h⟩
    · obtain ⟨e', he', hf⟩ := ih h
      exact ⟨e', List.mem_cons_of_mem _ he', hf⟩

theorem callees_of_keyword {t : Token} {e : Expr} (h : keywordLiteral? t = some e) :
    e.callees = [] := by
  rw [keywordLiteral?] at h
  split at h
  · exact Option.some.inj h ▸ rfl
  · split at h
    · exact Option.some.inj h ▸ rfl
    · split at h
      · exact Option.some.inj h ▸ rfl
      · cases h

/-- The functions that an expression calls stand in its text. -/
theorem Spells.named {p : Nat} {w : List Lexeme} {e : Expr} (h : Spells p w e) :
    Named e.callees w := by
  induction h with
  | number _ => exact .nil _
  | string _ => exact .nil _
  | keyword h =>
    rw [callees_of_keyword h]
    exact .nil _
  | var _ => exact .nil _
  | call callee _ ih =>
    refine .append (fun f hf => ?_) fun f hf => ?_
    · obtain ⟨e, he, hf⟩ := exists_of_mem_argCallees hf
      obtain ⟨part, hpart, rfl⟩ := List.mem_map.1 he
      have hmem := subset_separated (List.mem_map_of_mem hpart) (ih part hpart f hf)
      exact List.mem_cons_of_mem _ (List.mem_cons_of_mem _ (List.mem_append_left _ hmem))
    · rw [List.mem_singleton.1 hf]
      exact List.mem_cons_self
  | group _ ih => exact ih.mono fun l hl => List.mem_cons_of_mem _ (List.mem_append_left _ hl)
  | unary _ _ _ ih => exact ih.mono (List.subset_cons_self _ _)
  | binary _ _ _ _ iha ihb =>
    exact .append (iha.mono (List.subset_append_left _ _))
      (ihb.mono fun l hl => List.mem_append_right _ (List.mem_cons_of_mem _ hl))
  | conditional _ _ _ iht ihy ihn =>
    refine .append (iht.mono (List.subset_append_left _ _)) (.append (ihy.mono ?_) (ihn.mono ?_))
    · exact fun l hl => List.mem_append_right _
        (List.mem_cons_of_mem _ (List.mem_append_left _ hl))
    · exact fun l hl => List.mem_append_right _
        (List.mem_cons_of_mem _ (List.mem_append_right _ (List.mem_cons_of_mem _ hl)))

theorem Simple.named {w : List Lexeme} {s : Statement} (h : Simple w s) : Named s.callees w := by
  cases h with
  | assign name op h => exact h.named.mono fun l hl => List.mem_cons_of_mem _ (List.mem_cons_of_mem _ hl)
  | step name h => exact .nil _
  | expr h => exact h.named

theorem Declarator.named {w : List Lexeme} {d : String × Option Expr} (h : Declarator w d) :
    Named (Expr.optionCallees d.2) w := by
  cases h with
  | bare name => exact .nil _
  | init name h => exact h.named.mono fun l hl => List.mem_cons_of_mem _ (List.mem_cons_of_mem _ hl)

theorem Declares.named {w : List Lexeme} {ds : List (String × Option Expr)} (h : Declares w ds) :
    Named (declareCallees ds) w := by
  induction h with
  | last h => exact h.named.append (.nil _)
  | more hd _ ih =>
    exact (hd.named.mono (List.subset_append_left _ _)).append
      (ih.mono fun l hl => List.mem_append_right _ (List.mem_cons_of_mem _ hl))

theorem Initialises.named {w : List Lexeme} {s : Option Statement} (h : Initialises w s) :
    Named (optionCallees s) w := by
  cases h with
  | absent => exact .nil _
  | simple h => exact h.named
  | declare h => exact h.named.mono (List.subset_cons_self _ _)

theorem Conditions.named {w : List Lexeme} {e : Option Expr} (h : Conditions w e) :
    Named (Expr.optionCallees e) w := by
  cases h with
  | absent => exact .nil _
  | present h => exact h.named

theorem Updates.named {w : List Lexeme} {s : Option Statement} (h : Updates w s) :
    Named (optionCallees s) w := by
  cases h with
  | absent => exact .nil _
  | present h => exact h.named

/-- What branches call stands in their conditions and bodies. -/
theorem named_branches {bs : List Branch} {w : List Lexeme}
    (hconditions : ∀ b ∈ bs, Named b.condition.callees w)
    (hbodies : ∀ b ∈ bs, Named (bodyCallees b.body) w) :
    Named (branchCallees (bs.map Branch.parts)) w := by
  induction bs with
  | nil => exact .nil w
  | cons b bs ih =>
    rw [List.forall_mem_cons] at hconditions hbodies
    exact hconditions.1.append (hbodies.1.append (ih hconditions.2 hbodies.2))

theorem conditionText_subset (b : Branch) : b.conditionText ⊆ b.text :=
  fun _ hl => List.mem_cons_of_mem _ (List.mem_cons_of_mem _ (List.mem_append_left _ hl))

theorem bodyText_subset (b : Branch) : b.bodyText ⊆ b.text := by
  intro l hl
  have hbody : l ∈ b.bodyText ++ [Lexeme.rightBrace] := List.mem_append_left _ hl
  exact List.mem_cons_of_mem _ (List.mem_cons_of_mem _ (List.mem_append_right _
    (List.mem_cons_of_mem _ (List.mem_cons_of_mem _ hbody))))

theorem text_subset_elseIfs {b : Branch} {bs : List Branch} (h : b ∈ bs) :
    b.text ⊆ elseIfs bs := by
  induction bs with
  | nil => cases h
  | cons c cs ih =>
    rw [elseIfs]
    rcases List.mem_cons.1 h with rfl | h
    · exact fun l hl => List.mem_cons_of_mem _ (List.mem_append_left _ hl)
    · exact fun l hl => List.mem_cons_of_mem _ (List.mem_append_right _ (ih h hl))

/-- **The functions that statements call stand in their text.** -/
theorem Writes.named {w : List Lexeme} {ss : List Statement} (h : Writes w ss) :
    Named (bodyCallees ss) w := by
  induction h with
  | nil => exact .nil _
  | simple hs _ ih =>
    exact (hs.named.mono (List.subset_append_left _ _)).append
      (ih.mono fun l hl => List.mem_append_right _ (List.mem_cons_of_mem _ hl))
  | declare hds _ ih =>
    exact (hds.named.mono fun l hl => List.mem_cons_of_mem _ (List.mem_append_left _ hl)).append
      (ih.mono fun l hl => List.mem_cons_of_mem _
        (List.mem_append_right _ (List.mem_cons_of_mem _ hl)))
  | @ifElse first more otherwise w ss hconditions _ _ _ ihbodies ihotherwise ih =>
    have htext : ∀ b ∈ first :: more,
        b.text ⊆ first.text ++ (elseIfs more ++ (elseText otherwise ++ w)) := by
      intro b hb
      rcases List.mem_cons.1 hb with rfl | hb
      · exact List.subset_append_left _ _
      · exact fun l hl => List.mem_append_right _
          (List.mem_append_left _ (text_subset_elseIfs hb hl))
    refine .append (.append (named_branches ?_ ?_) ?_) (ih.mono ?_)
    · exact fun b hb => (hconditions b hb).named.mono (List.Subset.trans (conditionText_subset b) (htext b hb))
    · exact fun b hb => (ihbodies b hb).mono (List.Subset.trans (bodyText_subset b) (htext b hb))
    · cases otherwise with
      | none => exact .nil _
      | some o =>
        refine (ihotherwise o rfl).mono fun l hl => ?_
        simp [elseText, hl]
    · exact fun l hl => List.mem_append_right _
        (List.mem_append_right _ (List.mem_append_right _ hl))
  | whileLoop hcondition _ _ ihbody ih =>
    refine .append (.append (hcondition.named.mono ?_) (ihbody.mono ?_)) (ih.mono ?_)
    all_goals
      intro l hl
      simp [hl]
  | forLoop hinit hcondition hupdate _ _ ihbody ih =>
    refine .append (.append (hinit.named.mono ?_) (.append (hcondition.named.mono ?_)
      (.append (ihbody.mono ?_) (hupdate.named.mono ?_)))) (ih.mono ?_)
    all_goals
      intro l hl
      simp [hl]

end Script
end VisualBlocks

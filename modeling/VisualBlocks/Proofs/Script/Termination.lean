import VisualBlocks.Proofs.Script.Progress

/-!
# The parser ends

What `Progress` says of expressions holds of statements too, and so of the whole parser, whatever
the tokens are: `closed` makes any list a supply.

* `Settles`: the outcome is the same with any fuel from `fuelFor` on and whatever stands behind the
  last token.
* `Advances`: whoever succeeds stands at a later token, and not behind the last one.  This one holds
  with any fuel, so it holds of all calls on the way.
-/

set_option autoImplicit false

namespace VisualBlocks
namespace Script

variable {S : Position → Prop} {short : Prop} {extra ts : List Token} {α β : Type}

/-! ## Statements without parts -/

/-- Something may be read or not. -/
def Maybe (good : α → Prop) (o : Option α) : Prop := ∀ a ∈ o, good a

theorem Maybe.none {good : α → Prop} : Maybe good none :=
  fun _ ha => by cases ha

theorem Proceeds.some {good : α → Prop} {n : Nat} {x y : Except ParseError (α × List Token)}
    (h : Proceeds S short extra good n ts x y) :
    Proceeds S short extra (Maybe good) n ts (x.map fun r => (Option.some r.1, r.2))
      (y.map fun r => (Option.some r.1, r.2)) :=
  Concur.map h fun _ _ hr => ⟨by rw [hr.1], fun _ ha => Option.some.inj ha ▸ hr.2.1, hr.2.2⟩

/-- A keyword is not the last token. -/
theorem Leaves.keyword {t : Token} {rest : List Token} {word : String}
    (h : Supply S (t :: rest)) (ht : t.lexeme = .keyword word) : Leaves S 1 (t :: rest) rest :=
  .tail h (by simp [kind_of_lexeme ht, Lexeme.keyword])

theorem condition_progress {fuel fuel' : Nat} (word : String) (hts : Supply S ts)
    (h : Enough short fuel fuel' (4 * ts.length)) :
    Proceeds S short extra (Expr.Within S) 3 ts
      (condition fuel word ts) (condition fuel' word (ts ++ extra)) := by
  rw [condition, condition]
  refine Skips.bind (expect_skips (by simp) _ hts) fun rest hl => ?_
  have hn := hl.length
  refine Proceeds.bind ((expressionProgress fuel).expression hl.supply
    (h.of (by omega) (by omega))) fun e rest he hr => ?_
  replace hl := hl.trans hr
  refine Skips.bind (expect_skips (by simp) _ hl.supply) fun rest hr => ?_
  exact Proceeds.ok he (hl.trans hr)

/-- The first value of a variable, if there is one. -/
def initializer (fuel : Nat) (ts : List Token) : Except ParseError (Option Expr × List Token) :=
  if isOperator "=" ts then (expression fuel ts.tail).map fun r => (some r.1, r.2)
  else .ok (none, ts)

theorem declarators_succ (fuel : Nat) (ts : List Token) :
    declarators (fuel + 1) ts = do
      let rest ← expect .name .variableName ts
      let (init, rest) ← initializer fuel rest
      if nextKind rest = .comma then
        let (others, rest) ← declarators fuel rest.tail
        return (((ts.head?.map Token.text).getD "", init) :: others, rest)
      else return ([((ts.head?.map Token.text).getD "", init)], rest) := by
  rw [declarators]
  congr 1
  funext rest
  rw [initializer]
  split_ifs <;> rfl

theorem initializer_progress {fuel fuel' : Nat} (hts : Supply S ts)
    (h : Enough short fuel fuel' (4 * ts.length)) :
    Proceeds S short extra (Maybe (Expr.Within S)) 0 ts
      (initializer fuel ts) (initializer fuel' (ts ++ extra)) := by
  obtain ⟨t, rest, rfl⟩ := hts.exists_cons
  simp only [List.cons_append, initializer, isOperator_cons, List.tail_cons]
  refine .ite (fun ht => ?_) fun _ => Proceeds.ok .none (.refl hts)
  have hl := Leaves.tail hts (by simp [kind_of_lexeme ht, Lexeme.operator])
  have hn := hl.length
  exact Proceeds.mono (.after hl (.some ((expressionProgress fuel).expression hl.supply
    (h.of (by omega) (by omega))))) (by omega)

theorem declarators_progress {fuel fuel' : Nat} (hts : Supply S ts)
    (h : Enough short fuel fuel' (4 * ts.length)) :
    Proceeds S short extra (DeclareWithin S) 1 ts
      (declarators fuel ts) (declarators fuel' (ts ++ extra)) := by
  induction fuel generalizing ts fuel' with
  | zero => exact .exhausted (h.isShort (by have := hts.length_pos; omega))
  | succ fuel ih =>
    obtain ⟨k, rfl⟩ := h.exists_succ 0 (by have := hts.length_pos; omega)
    have hhead : (ts ++ extra).head? = ts.head? := by
      obtain ⟨t, rest, rfl⟩ := hts.exists_cons
      rfl
    rw [declarators_succ, declarators_succ, hhead]
    refine Skips.bind (expect_skips (by simp) _ hts) fun rest hl => ?_
    have hn := hl.length
    refine Proceeds.bind (initializer_progress hl.supply (h.of (by omega) (by omega)))
      fun init rest hinit hr => ?_
    replace hl := hl.trans hr
    obtain ⟨t, rest, rfl⟩ := hl.supply.exists_cons
    simp only [List.cons_append, nextKind_cons, List.tail_cons]
    refine .ite (fun ht => ?_) fun _ => Proceeds.ok (.cons _ hinit .nil) hl
    replace hl := hl.trans (.tail hl.supply (by simp [ht]))
    have hn := hl.length
    refine Proceeds.bind (ih hl.supply (h.of (by omega) (by omega)))
      fun others rest hothers hr => ?_
    exact Proceeds.ok (.cons _ hinit hothers) ((hl.trans hr).mono (by omega))

theorem simpleStatement_of_kind {fuel : Nat} {ts : List Token} (h : nextKind ts ≠ .name) :
    simpleStatement fuel ts =
      (expression fuel ts >>= fun r => .ok (.expr (nextPos ts) r.1, r.2)) := by
  rw [simpleStatement.eq_def]
  rcases ts with _ | ⟨t, _ | ⟨o, rest⟩⟩
  · rfl
  · rfl
  · rw [nextKind_cons] at h
    dsimp only
    rw [if_neg h]
    rfl

theorem simpleStatement_progress {fuel fuel' : Nat} (hts : Supply S ts)
    (h : Enough short fuel fuel' (4 * ts.length)) :
    Proceeds S short extra (Statement.Within S) 1 ts
      (simpleStatement fuel ts) (simpleStatement fuel' (ts ++ extra)) := by
  -- Whatever the tokens are, the statement may be an expression and nothing else.
  have hbare : Proceeds S short extra (Statement.Within S) 1 ts
      (expression fuel ts >>= fun r => .ok (.expr (nextPos ts) r.1, r.2))
      (expression fuel' (ts ++ extra) >>= fun r =>
        .ok (.expr (nextPos (ts ++ extra)) r.1, r.2)) := by
    refine Proceeds.bind ((expressionProgress fuel).expression hts h) fun e rest he hl => ?_
    obtain ⟨t, more, rfl⟩ := hts.exists_cons
    exact Proceeds.ok (.expr hts.head he) hl
  obtain ⟨t, rest, rfl⟩ := hts.exists_cons
  by_cases ht : t.kind = .name
  · have hl := Leaves.tail hts (by simp [ht])
    obtain ⟨o, rest, rfl⟩ := hl.supply.exists_cons
    have hpos := hl.supply.head
    cases ho : assignOp? o with
    | none =>
      rw [simpleStatement_bare, simpleStatement_bare]
      · exact hbare
      all_goals
        rintro _ _ _ ⟨⟩
        exact ho
    | some step =>
      have hkind : o.kind ≠ .endOfInput := fun hkind => by simp [assignOp?, hkind] at ho
      replace hl := hl.trans (.tail hl.supply hkind)
      have hn := hl.length
      obtain ⟨op, _ | _⟩ := step
      · simp only [List.cons_append, simpleStatement, if_pos ht, ho]
        refine Proceeds.bind ((expressionProgress fuel).expression hl.supply
          (h.of (by omega) (by omega))) fun value rest hvalue hr => ?_
        exact Proceeds.ok (.assign hts.head _ op hvalue) ((hl.trans hr).mono (by omega))
      · simp only [List.cons_append, simpleStatement, if_pos ht, ho]
        exact Proceeds.ok (.assign hts.head _ op (.number hpos 1)) (hl.mono (by omega))
  · rw [simpleStatement_of_kind (show nextKind (t :: rest) ≠ .name from ht),
      simpleStatement_of_kind (show nextKind (t :: rest ++ extra) ≠ .name from ht)]
    exact hbare

theorem endStatement_skips (hts : Supply S ts) :
    Skips S short extra 0 ts (endStatement ts) (endStatement (ts ++ extra)) := by
  obtain ⟨t, rest, rfl⟩ := hts.exists_cons
  simp only [List.cons_append, endStatement, nextKind_cons, List.tail_cons]
  cases ht : t.kind with
  | semicolon => exact .ok ⟨rfl, (Leaves.tail hts (by simp [ht])).mono (by omega)⟩
  | rightBrace => exact .ok ⟨rfl, .refl hts⟩
  | endOfInput => exact .ok ⟨rfl, .refl hts⟩
  | _ => exact .failAt hts.head (by simp)

theorem loopInit_progress {fuel fuel' : Nat} (hts : Supply S ts)
    (h : Enough short fuel fuel' (4 * ts.length)) :
    Proceeds S short extra (Maybe (Statement.Within S)) 0 ts
      (loopInit fuel ts) (loopInit fuel' (ts ++ extra)) := by
  have hsimple : Proceeds S short extra (Statement.Within S) 1 ts
      (simpleStatement fuel ts) (simpleStatement fuel' (ts ++ extra)) :=
    simpleStatement_progress hts h
  obtain ⟨t, rest, rfl⟩ := hts.exists_cons
  simp only [List.cons_append, loopInit, nextKind_cons, nextPos_cons, Bool.or_eq_true,
    isKeyword_cons, List.tail_cons] at hsimple ⊢
  refine .ite (fun _ => Proceeds.ok .none (.refl hts)) fun _ => .ite (fun ht => ?_) fun _ => ?_
  · have hl : Leaves S 1 (t :: rest) rest := ht.elim (.keyword hts) (.keyword hts)
    have hn := hl.length
    refine Proceeds.bind (declarators_progress hl.supply (h.of (by omega) (by omega)))
      fun names rest hnames hr => ?_
    refine Proceeds.ok ?_ ((hl.trans hr).mono (Nat.zero_le _))
    rintro _ ⟨⟩
    exact .declare hts.head hnames
  · exact hsimple.some.mono (by omega)

/-! ## Statements -/

/-- What is assumed of the calls that statements are read by, the first ones with `fuel`. -/
structure StatementProgress (S : Position → Prop) (short : Prop) (extra : List Token)
    (fuel : Nat) : Prop where
  statement : ∀ {fuel' ts}, Supply S ts → Enough short fuel fuel' (4 * ts.length + 1) →
    Proceeds S short extra (BodyWithin S) 1 ts (statement fuel ts) (statement fuel' (ts ++ extra))
  block : ∀ {fuel' ts}, Supply S ts → Enough short fuel fuel' (4 * ts.length + 2) →
    Proceeds S short extra (BodyWithin S) 1 ts (block fuel ts) (block fuel' (ts ++ extra))
  blockBody : ∀ {fuel' ts}, Supply S ts → Enough short fuel fuel' (4 * ts.length + 2) →
    Proceeds S short extra (BodyWithin S) 1 ts (blockBody fuel ts) (blockBody fuel' (ts ++ extra))
  furtherBranches : ∀ {fuel' ts}, Supply S ts → Enough short fuel fuel' (4 * ts.length) →
    Branching S short extra ts (furtherBranches fuel ts) (furtherBranches fuel' (ts ++ extra))

/-- What may be left out before a token of the kind. -/
def readUnless (kind : TokenKind) (read : List Token → Except ParseError (α × List Token))
    (ts : List Token) : Except ParseError (Option α × List Token) :=
  if nextKind ts = kind then .ok (none, ts) else (read ts).map fun r => (some r.1, r.2)

theorem readUnless_bind {kind : TokenKind} {read : List Token → Except ParseError (α × List Token)}
    {f : Option α × List Token → Except ParseError β} :
    readUnless kind read ts >>= f =
      if nextKind ts = kind then .ok (none, ts) >>= f
      else ((read ts).map fun r => (some r.1, r.2)) >>= f := by
  rw [readUnless]
  split_ifs <;> rfl

theorem readUnless_progress {kind : TokenKind} {good : α → Prop} {n : Nat}
    {read read' : List Token → Except ParseError (α × List Token)} (hts : Supply S ts)
    (h : Proceeds S short extra good n ts (read ts) (read' (ts ++ extra))) :
    Proceeds S short extra (Maybe good) 0 ts (readUnless kind read ts)
      (readUnless kind read' (ts ++ extra)) := by
  obtain ⟨t, rest, rfl⟩ := hts.exists_cons
  rw [List.cons_append] at h ⊢
  exact .ite (fun _ => Proceeds.ok .none (.refl hts)) fun _ => h.some.mono (Nat.zero_le _)

/-- Reads a condition after its word, what is done when it holds, and the branches after that. -/
def branchesFrom (fuel : Nat) (word : String) (ts : List Token) :
    Except ParseError (List (Expr × List Statement) × List Statement × List Token) := do
  let (test, rest) ← condition fuel word ts
  let (body, rest) ← block fuel rest
  let (branches, otherwise, rest) ← furtherBranches fuel rest
  return ((test, body) :: branches, otherwise, rest)

/-- Reads a counting loop after its word. -/
def loopFrom (fuel : Nat) (pos : Position) (ts : List Token) :
    Except ParseError (List Statement × List Token) := do
  let rest ← expect .leftParen (.headOpening "for") ts
  let (init, rest) ← loopInit fuel rest
  let rest ← expect .semicolon .initEnd rest
  let (test, rest) ← readUnless .semicolon (expression fuel) rest
  let rest ← expect .semicolon .loopConditionEnd rest
  let (update, rest) ← readUnless .rightParen (simpleStatement fuel) rest
  let rest ← expect .rightParen .loopHeaderEnd rest
  let (body, rest) ← block fuel rest
  return ([.forLoop pos init test update body], rest)

/-- The statement that each first token begins. -/
theorem statement_succ (fuel : Nat) (t : Token) (ts : List Token) :
    statement (fuel + 1) (t :: ts) =
      if t.kind = .semicolon then .ok ([], ts)
      else if t.kind = .leftBrace then blockBody fuel ts
      else if (t.lexeme = .keyword "var" ∨ t.lexeme = .keyword "let") ∨
          t.lexeme = .keyword "const" then do
        let (names, rest) ← declarators fuel ts
        let rest ← endStatement rest
        return ([.declare t.pos names], rest)
      else if t.lexeme = .keyword "if" then do
        let (branches, otherwise, rest) ← branchesFrom fuel "if" ts
        return ([.ifElse t.pos branches otherwise], rest)
      else if t.lexeme = .keyword "while" then do
        let (test, rest) ← condition fuel "while" ts
        let (body, rest) ← block fuel rest
        return ([.whileLoop t.pos test body], rest)
      else if t.lexeme = .keyword "for" then loopFrom fuel t.pos ts
      else do
        let (s, rest) ← simpleStatement fuel (t :: ts)
        let rest ← endStatement rest
        return ([s], rest) := by
  rw [statement]
  simp only [nextKind_cons, nextPos_cons, List.tail_cons, Bool.or_eq_true, isKeyword_cons,
    branchesFrom, loopFrom, readUnless_bind, bind_assoc, pure_bind]

theorem furtherBranches_succ (fuel : Nat) (ts : List Token) :
    furtherBranches (fuel + 1) ts =
      if isKeyword "else" ts then
        if isKeyword "if" ts.tail then branchesFrom fuel "else if" ts.tail.tail
        else do
          let (otherwise, rest) ← block fuel ts.tail
          return ([], otherwise, rest)
      else .ok ([], [], ts) := by
  rw [furtherBranches]
  rfl

section Statements

variable {fuel fuel' : Nat} (ih : StatementProgress S short extra fuel)
include ih

theorem branchesFrom_progress (word : String) (hts : Supply S ts)
    (h : Enough short fuel fuel' (4 * ts.length)) :
    Branching S short extra ts
      (branchesFrom fuel word ts) (branchesFrom fuel' word (ts ++ extra)) := by
  rw [branchesFrom, branchesFrom]
  refine Proceeds.bind (condition_progress _ hts h) fun test rest htest hl => ?_
  have hn := hl.length
  refine Proceeds.bind (ih.block hl.supply (h.of (by omega) (by omega)))
    fun body rest hbody hr => ?_
  replace hl := hl.trans hr
  have hn := hl.length
  refine Branching.bind (ih.furtherBranches hl.supply (h.of (by omega) (by omega)))
    fun branches otherwise rest hbranches hr => ?_
  exact Branching.ok (.cons htest hbody hbranches) ((hl.trans hr).mono (by omega))

theorem loopFrom_progress {pos : Position} (hpos : S pos) (hts : Supply S ts)
    (h : Enough short fuel fuel' (4 * ts.length)) :
    Proceeds S short extra (BodyWithin S) 0 ts
      (loopFrom fuel pos ts) (loopFrom fuel' pos (ts ++ extra)) := by
  rw [loopFrom, loopFrom]
  refine Skips.bind (expect_skips (by simp) _ hts) fun rest hl => ?_
  have hn := hl.length
  refine Proceeds.bind (loopInit_progress hl.supply (h.of (by omega) (by omega)))
    fun init rest hinit hr => ?_
  replace hl := hl.trans hr
  refine Skips.bind (expect_skips (by simp) _ hl.supply) fun rest hr => ?_
  replace hl := hl.trans hr
  have hn := hl.length
  refine Proceeds.bind (readUnless_progress hl.supply
    ((expressionProgress fuel).expression hl.supply (h.of (by omega) (by omega))))
    fun test rest htest hr => ?_
  replace hl := hl.trans hr
  refine Skips.bind (expect_skips (by simp) _ hl.supply) fun rest hr => ?_
  replace hl := hl.trans hr
  have hn := hl.length
  refine Proceeds.bind (readUnless_progress hl.supply
    (simpleStatement_progress hl.supply (h.of (by omega) (by omega))))
    fun update rest hupdate hr => ?_
  replace hl := hl.trans hr
  refine Skips.bind (expect_skips (by simp) _ hl.supply) fun rest hr => ?_
  replace hl := hl.trans hr
  have hn := hl.length
  refine Proceeds.bind (ih.block hl.supply (h.of (by omega) (by omega)))
    fun body rest hbody hr => ?_
  exact Proceeds.ok (.single (.forLoop hpos hinit htest hupdate hbody))
    ((hl.trans hr).mono (by omega))

theorem statement_progress (hts : Supply S ts)
    (h : Enough short (fuel + 1) (fuel' + 1) (4 * ts.length + 1)) :
    Proceeds S short extra (BodyWithin S) 1 ts
      (statement (fuel + 1) ts) (statement (fuel' + 1) (ts ++ extra)) := by
  have hfuel : Enough short fuel fuel' (4 * ts.length) := h.of (by omega) (by omega)
  have hsimple : Proceeds S short extra (Statement.Within S) 1 ts
      (simpleStatement fuel ts) (simpleStatement fuel' (ts ++ extra)) :=
    simpleStatement_progress hts hfuel
  obtain ⟨t, rest, rfl⟩ := hts.exists_cons
  have hpos := hts.head
  rw [List.cons_append, statement_succ, statement_succ]
  refine .ite (fun ht => Proceeds.ok .nil (.tail hts (by simp [ht]))) fun _ =>
    .ite (fun ht => ?brace) fun _ => .ite (fun ht => ?declaration) fun _ =>
    .ite (fun ht => ?conditional) fun _ => .ite (fun ht => ?whileLoop) fun _ =>
    .ite (fun ht => ?forLoop) fun _ => ?simple
  case brace =>
    have hl := Leaves.tail hts (by simp [ht])
    have hn := hl.length
    exact Proceeds.mono (.after hl (ih.blockBody hl.supply (h.of (by omega) (by omega)))) (by omega)
  case declaration =>
    have hl : Leaves S 1 (t :: rest) rest :=
      ht.elim (Or.rec (.keyword hts) (.keyword hts)) (.keyword hts)
    have hn := hl.length
    refine Proceeds.bind (declarators_progress hl.supply (h.of (by omega) (by omega)))
      fun names rest hnames hr => ?_
    replace hl := hl.trans hr
    refine Skips.bind (endStatement_skips hl.supply) fun rest hr => ?_
    exact Proceeds.ok (.single (.declare hpos hnames)) ((hl.trans hr).mono (by omega))
  case conditional =>
    have hl := Leaves.keyword hts ht
    have hn := hl.length
    refine Branching.bind (branchesFrom_progress ih _ hl.supply (h.of (by omega) (by omega)))
      fun branches otherwise rest hbranches hr => ?_
    exact Proceeds.ok (.single (.ifElse hpos hbranches)) ((hl.trans hr).mono (by omega))
  case whileLoop =>
    have hl := Leaves.keyword hts ht
    have hn := hl.length
    refine Proceeds.bind (condition_progress _ hl.supply (h.of (by omega) (by omega)))
      fun test rest htest hr => ?_
    replace hl := hl.trans hr
    have hn := hl.length
    refine Proceeds.bind (ih.block hl.supply (h.of (by omega) (by omega)))
      fun body rest hbody hr => ?_
    exact Proceeds.ok (.single (.whileLoop hpos htest hbody)) ((hl.trans hr).mono (by omega))
  case forLoop =>
    have hl := Leaves.keyword hts ht
    have hn := hl.length
    exact Proceeds.mono (.after hl (loopFrom_progress ih hpos hl.supply
      (h.of (by omega) (by omega)))) (by omega)
  case simple =>
    refine Proceeds.bind hsimple fun s rest hs hl => ?_
    refine Skips.bind (endStatement_skips hl.supply) fun rest hr => ?_
    exact Proceeds.ok (.single hs) (hl.trans hr)

theorem block_progress (hts : Supply S ts)
    (h : Enough short (fuel + 1) (fuel' + 1) (4 * ts.length + 2)) :
    Proceeds S short extra (BodyWithin S) 1 ts
      (block (fuel + 1) ts) (block (fuel' + 1) (ts ++ extra)) := by
  have hfuel : Enough short fuel fuel' (4 * ts.length + 1) := h.of (by omega) (by omega)
  have hstatement := ih.statement hts hfuel
  rw [block, block]
  obtain ⟨t, rest, rfl⟩ := hts.exists_cons
  simp only [List.cons_append, nextKind_cons, List.tail_cons] at hstatement ⊢
  refine .ite (fun ht => ?_) fun _ => hstatement
  have hl := Leaves.tail hts (by simp [ht])
  have hn := hl.length
  exact Proceeds.mono (.after hl (ih.blockBody hl.supply (h.of (by omega) (by omega)))) (by omega)

theorem blockBody_progress (hts : Supply S ts)
    (h : Enough short (fuel + 1) (fuel' + 1) (4 * ts.length + 2)) :
    Proceeds S short extra (BodyWithin S) 1 ts
      (blockBody (fuel + 1) ts) (blockBody (fuel' + 1) (ts ++ extra)) := by
  have hfuel : Enough short fuel fuel' (4 * ts.length + 1) := h.of (by omega) (by omega)
  have hstatement := ih.statement hts hfuel
  rw [blockBody, blockBody]
  obtain ⟨t, rest, rfl⟩ := hts.exists_cons
  simp only [List.cons_append, nextKind_cons, List.tail_cons] at hstatement ⊢
  refine .ite (fun ht => Proceeds.ok .nil (.tail hts (by simp [ht]))) fun _ =>
    .ite (fun _ => .failAt hts.head (by simp)) fun _ => ?_
  refine Proceeds.bind hstatement fun first rest hfirst hl => ?_
  dsimp only
  have hn := hl.length
  refine Proceeds.bind (ih.blockBody hl.supply (h.of (by omega) (by omega)))
    fun others rest hothers hr => ?_
  exact Proceeds.ok (.append hfirst hothers) ((hl.trans hr).mono (by omega))

theorem furtherBranches_progress (hts : Supply S ts)
    (h : Enough short (fuel + 1) (fuel' + 1) (4 * ts.length)) :
    Branching S short extra ts
      (furtherBranches (fuel + 1) ts) (furtherBranches (fuel' + 1) (ts ++ extra)) := by
  rw [furtherBranches_succ, furtherBranches_succ]
  obtain ⟨t, rest, rfl⟩ := hts.exists_cons
  simp only [List.cons_append, isKeyword_cons, List.tail_cons]
  refine .ite (fun ht => ?_) fun _ => Branching.ok (fun _ _ _ => pointsInto_nil) (.refl hts)
  have hl := Leaves.keyword hts ht
  have hn := hl.length
  obtain ⟨t, rest, rfl⟩ := hl.supply.exists_cons
  simp only [List.cons_append, isKeyword_cons, List.tail_cons]
  refine .ite (fun ht => ?_) fun _ => ?_
  · replace hl := hl.trans (.keyword hl.supply ht)
    have hn := hl.length
    exact Branching.after hl (branchesFrom_progress ih _ hl.supply (h.of (by omega) (by omega)))
  · refine Proceeds.bind (ih.block hl.supply (h.of (by omega) (by omega)))
      fun otherwise rest hotherwise hr => ?_
    exact Branching.ok (fun _ _ => hotherwise) ((hl.trans hr).mono (by omega))

end Statements

/-- **Statements are read with progress**, by one induction over all functions that read them. -/
theorem statementProgress (fuel : Nat) : StatementProgress S short extra fuel := by
  induction fuel with
  | zero =>
    refine ⟨fun hts h => ?_, fun hts h => ?_, fun hts h => ?_, fun hts h => ?_⟩
    all_goals exact .exhausted (h.isShort (by have := hts.length_pos; omega))
  | succ fuel ih =>
    constructor
    case statement =>
      intro _ _ hts h
      obtain ⟨k, rfl⟩ := h.exists_succ 0 (by omega)
      exact statement_progress ih hts h
    case block =>
      intro _ _ hts h
      obtain ⟨k, rfl⟩ := h.exists_succ 0 (by omega)
      exact block_progress ih hts h
    case blockBody =>
      intro _ _ hts h
      obtain ⟨k, rfl⟩ := h.exists_succ 0 (by omega)
      exact blockBody_progress ih hts h
    case furtherBranches =>
      intro _ _ hts h
      obtain ⟨k, rfl⟩ := h.exists_succ 0 (by have := hts.length_pos; omega)
      exact furtherBranches_progress ih hts h

/-- A program is read off `ts`, up to a token that closes the input. -/
structure WholeRead (S : Position → Prop) (extra ts : List Token)
    (r r' : List Statement × List Token) : Prop where
  same : r' = (r.1, r.2 ++ extra)
  within : BodyWithin S r.1
  leaves : Leaves S 0 ts r.2
  ends : nextKind r.2 = .endOfInput

theorem statements_progress {fuel fuel' : Nat} (hts : Supply S ts)
    (h : Enough short fuel fuel' (4 * ts.length + 2)) :
    Concur S short (WholeRead S extra ts)
      (statements fuel ts) (statements fuel' (ts ++ extra)) := by
  induction fuel generalizing ts fuel' with
  | zero => exact .exhausted (h.isShort (by omega))
  | succ fuel ih =>
    obtain ⟨k, rfl⟩ := h.exists_succ 0 (by omega)
    have hfuel : Enough short fuel k (4 * ts.length + 1) := h.of (by omega) (by omega)
    have hstatement : Proceeds S short extra (BodyWithin S) 1 ts
        (statement fuel ts) (statement k (ts ++ extra)) :=
      (statementProgress fuel).statement hts hfuel
    rw [statements, statements]
    obtain ⟨t, rest, rfl⟩ := hts.exists_cons
    simp only [List.cons_append, nextKind_cons] at hstatement ⊢
    refine .ite (fun ht => .ok ⟨rfl, .nil, .refl hts, ht⟩) fun _ => ?_
    refine Proceeds.bind hstatement fun first rest hfirst hl => ?_
    dsimp only
    have hn := hl.length
    refine Concur.bind (ih hl.supply (h.of (by omega) (by omega))) fun r _ hr => ?_
    rw [hr.same]
    exact .ok ⟨rfl, .append hfirst hr.within, (hl.trans hr.leaves).mono (by omega), hr.ends⟩

/-! ## The whole parser -/

/-- A reader has one outcome at the tokens: it is the same with any fuel that is enough for them and
with any tokens behind them, and it is not for missing fuel that it is an error. -/
structure Settles (read : Nat → List Token → Except ParseError (α × List Token)) (ts : List Token)
    (outcome : Except ParseError (α × List Token)) : Prop where
  run : ∀ fuel extra, fuelFor ts ≤ fuel →
    read fuel (ts ++ extra) = outcome.map fun r => (r.1, r.2 ++ extra)
  fault : ∀ e, outcome = .error e → e.fault ≠ .exhausted

/-- A reader that starts at one of the tokens and succeeds, with any fuel, ends at a later one. -/
def Advances (read : Nat → List Token → Except ParseError (α × List Token)) (ts : List Token) :
    Prop :=
  ∀ fuel i a rest, i < ts.length → read fuel (ts.drop i) = .ok (a, rest) →
    ∃ j, i < j ∧ j < ts.length ∧ rest = ts.drop j

theorem supply_closed (ts : List Token) (hpos : ∀ t ∈ closed ts, S t.pos) :
    Supply S (closed ts) where
  ends := by
    unfold closed
    split
    next => exact ⟨_, rfl, rfl⟩
    next t ht =>
      split_ifs with hkind
      · exact ⟨t, ht, hkind⟩
      · exact ⟨Token.closing t.pos, by simp, rfl⟩
  pos := hpos

theorem Supply.drop (h : Supply S ts) {i : Nat} (hi : i < ts.length) : Supply S (ts.drop i) where
  ends := by
    rw [List.getLast?_drop, if_neg (by omega)]
    exact h.ends
  pos t ht := h.pos t (List.mem_of_mem_drop ht)

/-- The rest is what stands from a later token on. -/
theorem Leaves.exists_drop {i n : Nat} {rest : List Token} (h : Leaves S n (ts.drop i) rest)
    (hi : i < ts.length) : ∃ j, i + n ≤ j ∧ j < ts.length ∧ rest = ts.drop j := by
  have hlength := h.length
  have hpos := h.supply.length_pos
  rw [List.length_drop] at hlength
  exact ⟨ts.length - rest.length, by omega, by omega,
    List.suffix_iff_eq_drop.1 (h.suffix.trans (List.drop_suffix i ts))⟩

theorem settles_of_concur {read : Nat → List Token → Except ParseError (α × List Token)}
    {R : List Token → α × List Token → α × List Token → Prop}
    (hR : ∀ extra r r', R extra r r' → r' = (r.1, r.2 ++ extra))
    (h : ∀ fuel' extra, fuelFor ts ≤ fuel' →
      Concur S False (R extra) (read (fuelFor ts) ts) (read fuel' (ts ++ extra))) :
    Settles read ts (read (fuelFor ts) ts) where
  run fuel extra hfuel := by
    -- `R` says what the second run returns, so the first one determines it.
    have hrun := h fuel extra hfuel
    generalize read (fuelFor ts) ts = x, read fuel (ts ++ extra) = y at hrun ⊢
    cases hrun with
    | ok hr => rw [hR extra _ _ hr]; rfl
    | error => rfl
    | exhausted hshort => exact hshort.elim
  fault e he := by
    have hrun := h _ [] (Nat.le_refl _)
    rw [he] at hrun
    generalize read (fuelFor ts) (ts ++ []) = y at hrun
    cases hrun with
    | error hfault => exact hfault
    | exhausted hshort => exact hshort.elim

theorem advances_of_progress {read : Nat → List Token → Except ParseError (α × List Token)}
    {good : α → Prop} (hts : Supply S ts)
    (h : ∀ fuel ts, Supply S ts → ∃ x, Proceeds S True [] good 1 ts (read fuel ts) x) :
    Advances read ts := by
  intro fuel i a rest hi hrun
  obtain ⟨x, hx⟩ := h fuel _ (hts.drop hi)
  rw [hrun] at hx
  cases hx with
  | ok hr => exact hr.2.2.exists_drop hi

theorem enough_fuelFor {fuel' n : Nat} (h : fuelFor ts ≤ fuel') (hn : n ≤ 4 * ts.length + 2) :
    Enough False (fuelFor ts) fuel' n := by
  unfold fuelFor at h ⊢
  exact ⟨fun _ => by omega, by omega⟩

/-- **A program points to its tokens**, and so does the fault of one that cannot be read. -/
theorem parseTokens_within (hpos : ∀ t ∈ closed ts, S t.pos) :
    (∀ p, parseTokens ts = .ok p → PointsInto S p.code) ∧
      ∀ e, parseTokens ts = .error e → S e.pos := by
  have hrun : Concur S False (WholeRead S [] (closed ts))
      (statements (fuelFor (closed ts)) (closed ts)) _ :=
    statements_progress (supply_closed ts hpos) (enough_fuelFor (Nat.le_refl _) (Nat.le_refl _))
  rw [parseTokens]
  generalize statements (fuelFor (closed ts)) (closed ts) = x,
    statements (fuelFor (closed ts)) (closed ts ++ []) = y at hrun
  cases hrun with
  | ok hr =>
    refine ⟨fun p hp => ?_, fun _ h => by cases h⟩
    cases hp
    exact hr.within 0
  | error _ hpos =>
    refine ⟨fun _ h => (by cases h), fun e he => ?_⟩
    cases he
    exact hpos
  | exhausted hshort => exact hshort.elim

theorem prefix_closed (ts : List Token) : ts <+: closed ts := by
  unfold closed
  split
  next h => simp [List.getLast?_eq_none_iff.1 h]
  next => split_ifs <;> simp

/-- **The parser ends on every list of tokens.**  The list is closed by a token that ends the input.
At the closed list the reading of statements and that of an expression settle, so the depth of the
calls is bounded and no token behind the last one is asked for; a program is read up to a token that
ends the input; and every statement, operand or expression that is read on the way takes at least
one token, and not the last one. -/
theorem parser_ends (ts : List Token) :
    (ts <+: closed ts ∧ ∃ last ∈ (closed ts).getLast?, last.kind = .endOfInput) ∧
    (∃ outcome, Settles statements (closed ts) outcome ∧
      parseTokens ts = outcome.map (fun r => ⟨r.1⟩) ∧
      ∀ body rest, outcome = .ok (body, rest) →
        ∃ j, ∃ hj : j < (closed ts).length,
          rest = (closed ts).drop j ∧ (closed ts)[j].kind = .endOfInput) ∧
    Settles expression (closed ts) (parseExpression ts) ∧
    Advances statement (closed ts) ∧ Advances unary (closed ts) ∧
    Advances expression (closed ts) := by
  have hts : Supply (fun _ => True) (closed ts) := supply_closed ts fun _ _ => trivial
  have hprogram : ∀ fuel' extra, fuelFor (closed ts) ≤ fuel' →
      Concur (fun _ => True) False (WholeRead (fun _ => True) extra (closed ts))
        (statements (fuelFor (closed ts)) (closed ts)) (statements fuel' (closed ts ++ extra)) :=
    fun fuel' extra h => statements_progress hts (enough_fuelFor h (Nat.le_refl _))
  refine ⟨⟨prefix_closed ts, hts.ends⟩,
    ⟨_, settles_of_concur (fun _ _ _ hr => hr.same) hprogram, rfl, fun body rest hrun => ?_⟩,
    settles_of_concur (fun _ _ _ hr => hr.1) fun fuel' extra h =>
      (expressionProgress _).expression hts (enough_fuelFor h (Nat.le_add_right _ 2)),
    advances_of_progress hts fun fuel ts hts => ⟨_, (statementProgress fuel).statement hts
      ⟨fun h => absurd trivial h, Nat.le_refl _⟩⟩,
    advances_of_progress hts fun fuel ts hts => ⟨_, (expressionProgress fuel).unary hts
      ⟨fun h => absurd trivial h, Nat.le_add_right _ 2⟩⟩,
    advances_of_progress hts fun fuel ts hts => ⟨_, (expressionProgress fuel).expression hts
      ⟨fun h => absurd trivial h, Nat.le_refl _⟩⟩⟩
  have hend := hprogram _ [] (Nat.le_refl _)
  rw [hrun] at hend
  generalize statements (fuelFor (closed ts)) (closed ts ++ []) = y at hend
  cases hend with
  | ok hr =>
    obtain ⟨j, -, hj, rfl⟩ := Leaves.exists_drop (i := 0) hr.leaves hts.length_pos
    have hkind := hr.ends
    rw [List.drop_eq_getElem_cons hj] at hkind
    exact ⟨j, hj, rfl, hkind⟩

/-- Tokens that the end of the input stands among, but not behind. -/
def interruptedTokens : List Token :=
  [⟨.name, "a", ⟨1, 1⟩⟩, ⟨.endOfInput, "", ⟨1, 2⟩⟩, ⟨.operator, "+", ⟨1, 3⟩⟩]

theorem interruptedTokens_advance :
    ∃ j, 0 < j ∧ j < (closed interruptedTokens).length ∧
      interruptedTokens.tail ++ [Token.closing ⟨1, 3⟩] = (closed interruptedTokens).drop j :=
  (parser_ends interruptedTokens).2.2.2.2.2 20 0 (.var ⟨1, 1⟩ "a") _ (by decide) rfl

end Script
end VisualBlocks

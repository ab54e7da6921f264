import VisualBlocks.Proofs.Generation.Serving

/-!
# The rules for values

Each rule for a standard value block gives the text of the expression of the block (`Valued`): one
lemma a rule, from what is said of the answers to its requests.  The operations on two inputs are
one lemma (`ensures_binary`), whichever operation it is.
-/

set_option autoImplicit false

namespace VisualBlocks
namespace Generation
namespace Standard

open Script BlockTree

variable {known : String → Bool} {answer : Request → Walk String} {t : BlockTree} {s : Site}
  {p : Pass}

/-! ## Operations on two values -/

/-- An operation asks for its operands and puts itself between them. -/
theorem ensures_binary (h : Served known answer t) (hp : p.Sound) {op : BinaryOp} {order : Order}
    (horder : order.IsOf op) {missing : String} (hmissing : IsLiteral missing) :
    ((binary op.symbol order missing).run answer).Ensures p fun result q =>
      p.Moves q ∧ ∃ w e a b, Says result.2 result.1 w e ∧ Regrouped e (.binary .start op a b) ∧
        Operand t "A" missing a q ∧ Operand t "B" missing b q := by
  rw [binary]
  refine Emission.ensures_bind (h.asksValue "A" horder.place hmissing hp) fun x q hx => ?_
  obtain ⟨hpq, v, a, ha, hmeansA⟩ := hx
  refine Emission.ensures_bind (h.asksValue "B" horder.place hmissing (hpq.grows.sound hp))
    fun y r hy => ?_
  obtain ⟨hqr, w, b, hb, hmeansB⟩ := hy
  obtain ⟨e, he, hregrouped⟩ := Fits.binary horder ha hb
  exact Emission.ensures_pure ⟨hpq.trans hqr, _, e, a, b, he, hregrouped,
    hmeansA.grows hqr.grows, hmeansB⟩

/-- An operation is valued if the meaning of the block is the operation on its inputs. -/
theorem valued_binary (op : BinaryOp) (h : Served known answer t) (hp : p.Sound) {order : Order}
    (horder : order.IsOf op) {missing : String} (hmissing : IsLiteral missing)
    (hmeaning : ∀ names, t.expr names =
      .binary .start op (t.operandIn names "A" missing) (t.operandIn names "B" missing)) :
    ((binary op.symbol order missing).run answer).Ensures p (Valued t p) := by
  refine (ensures_binary h hp horder hmissing).mono fun result q hresult => ?_
  obtain ⟨hpq, w, e, a, b, he, hregrouped, ha, hb⟩ := hresult
  have hscope : (Expr.binary .start op a b).InScope (q.scope t.Odd) :=
    Expr.InScope.binary_iff.2 ⟨ha.inScope, hb.inScope⟩
  refine ⟨hpq, w, e, he, hregrouped.inScope_iff.2 hscope, fun ht r hqr => ?_⟩
  dsimp only
  rw [hmeaning]
  exact hregrouped.trans (.binary op (ha.denotes ht r hqr) (hb.denotes ht r hqr))

/-- The order of a comparison. -/
def comparisonOrder : BinaryOp → Order
  | .eq | .ne => .equality
  | _ => .relational

theorem logicCompare_eq (s : Site) :
    logicCompare s =
      binary (comparison (s.fieldOr "OP" "EQ")).symbol
        (comparisonOrder (comparison (s.fieldOr "OP" "EQ"))) "0" := by
  rw [logicCompare]
  generalize s.fieldOr "OP" "EQ" = x
  split
  · rfl
  · rfl
  · rfl
  · rfl
  · rfl
  · rw [comparison]
    · rfl
    all_goals assumption

theorem isOf_comparison (x : String) : (comparisonOrder (comparison x)).IsOf (comparison x) := by
  rw [comparison.eq_def]
  split
  all_goals exact ⟨by decide, by decide, rfl, rfl, rfl⟩

theorem valued_logicCompare (hs : s.Shows t) (htype : t.type = "logic_compare")
    (h : Served known answer t) (hp : p.Sound) :
    ((logicCompare s).run answer).Ensures p (Valued t p) := by
  rw [logicCompare_eq, hs.fieldOr]
  refine valued_binary _ h hp (isOf_comparison _) isLiteral_zero fun names => ?_
  rw [expr_eq, htype]
  rfl

theorem valued_logicOperation (hs : s.Shows t) (htype : t.type = "logic_operation")
    (h : Served known answer t) (hp : p.Sound) :
    ((logicOperation s).run answer).Ensures p (Valued t p) := by
  have hmeaning (names : String → String) := t.expr_eq names
  rw [htype] at hmeaning
  rw [logicOperation, hs.field?]
  by_cases hor : t.fields.get? "OP" = some "OR"
  · rw [hor, if_pos (beq_self_eq_true _)]
    refine valued_binary .or h hp ⟨by decide, by decide, rfl, rfl, rfl⟩
      isLiteral_false fun names => ?_
    rw [hmeaning]
    exact if_pos hor
  · rw [if_neg (by rwa [beq_iff_eq]), hs.isFilled, hs.isFilled]
    have hmissing : IsLiteral
        (if (t.input? "A").isSome || (t.input? "B").isSome then "true" else "false") := by
      split
      · exact isLiteral_true
      · exact isLiteral_false
    refine valued_binary .and h hp ⟨by decide, by decide, rfl, rfl, rfl⟩ hmissing
      fun names => ?_
    rw [hmeaning]
    refine (if_neg hor).trans ?_
    rw [lookup_inputExprs, lookup_inputExprs, Option.isSome_map, Option.isSome_map]
    rfl

/-! ## Logic -/

theorem valued_logicNegate (htype : t.type = "logic_negate") (h : Served known answer t)
    (hp : p.Sound) : ((logicNegate s).run answer).Ensures p (Valued t p) := by
  rw [logicNegate]
  refine Emission.ensures_bind (h.asksValue "BOOL" (by decide) isLiteral_true hp) fun x q hx => ?_
  obtain ⟨hpq, v, a, ha, hmeans⟩ := hx
  refine Emission.ensures_pure
    ⟨hpq, _, _, ha.negated, hmeans.inScope.unary .not, fun ht r hqr => ?_⟩
  dsimp only
  rw [expr_eq, htype]
  exact .unary .not (hmeans.denotes ht r hqr)

/-- A leaf is the expression of its own literal. -/
theorem valued_leaf {code : String} {order : Order} {w : List Lexeme} {e : Expr}
    (hcode : Says order code w e) {names : List String} (hnames : e.Names names)
    (hodd : ∀ x ∈ names, t.Odd x) (hmeaning : ∀ names, t.expr names = e) :
    ((pure (code, order) : Emission (String × Order)).run answer).Ensures p (Valued t p) := by
  have hscope : e.InScope (p.scope t.Odd) := hnames.inScope fun x hx => .inr (hodd x hx)
  refine Emission.ensures_pure ⟨.refl p, w, e, hcode, hscope, fun _ r _ => ?_⟩
  dsimp only
  rw [hmeaning]
  exact .refl e

theorem valued_logicBoolean (hs : s.Shows t) (htype : t.type = "logic_boolean") :
    ((logicBoolean s).run answer).Ensures p (Valued t p) := by
  have hmeaning (names : String → String) := t.expr_eq names
  rw [htype] at hmeaning
  rw [logicBoolean, hs.field?]
  by_cases htrue : t.fields.get? "BOOL" = some "TRUE"
  · rw [if_pos (by rwa [beq_iff_eq])]
    obtain ⟨w, hw⟩ := isLiteral_true.spelt
    refine valued_leaf hw isLiteral_true.names nofun fun names => ?_
    rw [hmeaning]
    exact congrArg _ (decide_eq_true htrue)
  · rw [if_neg (by rwa [beq_iff_eq])]
    obtain ⟨w, hw⟩ := isLiteral_false.spelt
    refine valued_leaf hw isLiteral_false.names nofun fun names => ?_
    rw [hmeaning]
    exact congrArg _ (decide_eq_false htrue)

theorem valued_logicNull (htype : t.type = "logic_null") :
    ((logicNull s).run answer).Ensures p (Valued t p) := by
  rw [logicNull]
  obtain ⟨w, hw⟩ := isLiteral_null.spelt
  refine valued_leaf hw isLiteral_null.names nofun fun names => ?_
  rw [expr_eq, htype]
  rfl

theorem valued_logicTernary (htype : t.type = "logic_ternary") (h : Served known answer t)
    (hp : p.Sound) : ((logicTernary s).run answer).Ensures p (Valued t p) := by
  rw [logicTernary]
  refine Emission.ensures_bind (h.asksValue "IF" (by decide) isLiteral_false hp) fun x q hx => ?_
  obtain ⟨hpq, u, a, ha, hmeansA⟩ := hx
  have hq := hpq.grows.sound hp
  refine Emission.ensures_bind (h.asksValue "THEN" (by decide) isLiteral_null hq) fun y r hy => ?_
  obtain ⟨hqr, v, b, hb, hmeansB⟩ := hy
  have hr := hqr.grows.sound hq
  refine Emission.ensures_bind (h.asksValue "ELSE" (by decide) isLiteral_null hr) fun z o hz => ?_
  obtain ⟨hro, w, c, hc, hmeansC⟩ := hz
  have hmeansA := hmeansA.grows (hqr.trans hro).grows
  have hmeansB := hmeansB.grows hro.grows
  have hscope : (Expr.conditional .start a b c).InScope (o.scope t.Odd) :=
    Expr.InScope.conditional_iff.2 ⟨hmeansA.inScope, hmeansB.inScope, hmeansC.inScope⟩
  refine Emission.ensures_pure
    ⟨(hpq.trans hqr).trans hro, _, _, ha.choice hb hc, hscope, fun ht f hf => ?_⟩
  dsimp only
  rw [expr_eq, htype]
  exact .conditional (hmeansA.denotes ht f hf) (hmeansB.denotes ht f hf) (hmeansC.denotes ht f hf)

/-! ## Numbers -/

theorem valued_mathNumber (hs : s.Shows t) (htype : t.type = "math_number") :
    ((mathNumber s).run answer).Ensures p (Valued t p) := by
  have hmeaning (names : String → String) :
      t.expr names = ofLiteral (Number.literal (numberIn (t.fields.get? "NUM"))) := by
    rw [expr_eq, htype]
    rfl
  have hodd : ∀ x ∈ (Number.literalWord? (numberIn (t.fields.get? "NUM"))).toList, t.Odd x := by
    intro x hx
    refine .self ?_
    rw [htype]
    exact hx
  rw [mathNumber, hs.field?]
  change ((pure (Number.literal (numberIn (t.fields.get? "NUM")),
    if numberIn (t.fields.get? "NUM") < 0 then Order.negation else Order.atomic) :
      Emission (String × Order)).run answer).Ensures p (Valued t p)
  split
  · obtain ⟨⟨w, hw⟩, hnames⟩ := says_number (numberIn (t.fields.get? "NUM"))
      (show Order.negation ∈ Order.expressions by decide) rfl
    exact valued_leaf hw hnames hodd hmeaning
  · obtain ⟨⟨w, hw⟩, hnames⟩ := says_number (numberIn (t.fields.get? "NUM"))
      (show Order.atomic ∈ Order.expressions by decide) rfl
    exact valued_leaf hw hnames hodd hmeaning

theorem valued_mathPower (h : Served known answer t) (hp : p.Sound)
    (hmeaning : ∀ names, t.expr names =
      .call .start "Math.pow" [t.operandIn names "A" "0", t.operandIn names "B" "0"]) :
    (mathPower.run answer).Ensures p (Valued t p) := by
  rw [mathPower]
  refine Emission.ensures_bind (h.asksValue "A" (by decide) isLiteral_zero hp) fun x q hx => ?_
  obtain ⟨hpq, v, a, ha, hmeansA⟩ := hx
  have hq := hpq.grows.sound hp
  refine Emission.ensures_bind (h.asksValue "B" (by decide) isLiteral_zero hq) fun y r hy => ?_
  obtain ⟨hqr, w, b, hb, hmeansB⟩ := hy
  have hargs : ∀ z ∈ [(⟨x, v, a⟩ : Argument), ⟨y, w, b⟩], z.Right := by
    intro z hz
    rcases List.mem_pair.1 hz with rfl | rfl
    · exact right_of_fits ha rfl rfl
    · exact right_of_fits hb rfl rfl
  have hcall := says_call "Math.pow"
    ⟨fun rest => .token rfl (.token rfl (.refl rest)), by decide⟩
    ⟨'M', "ath.pow".toList, by decide, by decide⟩ (by decide) hargs
  have hcode : "Math.pow(" ++ x ++ ", " ++ y ++ ")" =
      "Math.pow" ++ "(" ++ (String.intercalate ", " [x, y] ++ ")") := by
    rw [String.intercalate_cons_cons, String.intercalate_singleton]
    simp only [← String.append_assoc]
    rfl
  rw [hcode]
  have hmeansA := hmeansA.grows hqr.grows
  have hscope : (Expr.call .start "Math.pow" [a, b]).InScope (r.scope t.Odd) :=
    Expr.InScope.call_iff.2 ⟨List.mem_cons_self,
      List.forall_mem_cons.2 ⟨hmeansA.inScope, List.forall_mem_singleton.2 hmeansB.inScope⟩⟩
  refine Emission.ensures_pure ⟨hpq.trans hqr, _, _, hcall, hscope, fun ht f hf => ?_⟩
  dsimp only
  rw [hmeaning]
  exact (Regrouped.call "Math.pow" [] [b] (hmeansA.denotes ht f hf)).trans
    (Regrouped.call "Math.pow" [_] [] (hmeansB.denotes ht f hf))

theorem valued_mathArithmetic (hs : s.Shows t) (htype : t.type = "math_arithmetic")
    (h : Served known answer t) (hp : p.Sound) :
    ((mathArithmetic s).run answer).Ensures p (Valued t p) := by
  have hmeaning (names : String → String) : t.expr names =
      arithmetic ((t.fields.get? "OP").getD "ADD") (t.operandIn names "A" "0")
        (t.operandIn names "B" "0") := by
    rw [expr_eq, htype]
    rfl
  rw [mathArithmetic, hs.fieldOr]
  generalize (t.fields.get? "OP").getD "ADD" = x at hmeaning
  split
  · exact valued_binary .sub h hp ⟨by decide, by decide, rfl, rfl, rfl⟩
      isLiteral_zero hmeaning
  · exact valued_binary .mul h hp ⟨by decide, by decide, rfl, rfl, rfl⟩
      isLiteral_zero hmeaning
  · exact valued_binary .div h hp ⟨by decide, by decide, rfl, rfl, rfl⟩
      isLiteral_zero hmeaning
  · exact valued_mathPower h hp hmeaning
  · refine valued_binary .add h hp isOf_addition isLiteral_zero fun names => ?_
    rw [hmeaning, arithmetic]
    all_goals assumption

/-! ## Texts and variables -/

theorem valued_text (hs : s.Shows t) (htype : t.type = "text") :
    ((text s).run answer).Ensures p (Valued t p) := by
  rw [text, hs.fieldOr]
  generalize hvalue : (t.fields.get? "TEXT").getD "" = value
  have hinline : Inline (quote value) [⟨.string, value⟩] :=
    ⟨(passage_quote value).phrase, lineBreak_not_mem_quote value⟩
  have hleads : Leads (quote value) := ⟨'\'', _, quote_toList value, by decide⟩
  have hnames : (Expr.string .start value).Names [] := ⟨rfl, rfl⟩
  refine valued_leaf (.literal hinline (.cons nofun .nil) hleads (.string value) (.leaf rfl))
    hnames nofun fun names => ?_
  rw [expr_eq, htype, ← hvalue]
  rfl

theorem valued_variablesGet (hs : s.Shows t) (htype : t.type = "variables_get")
    (h : Served known answer t) (hp : p.Sound) :
    ((variablesGet s).run answer).Ensures p (Valued t p) := by
  rw [variablesGet, hs.fieldOr]
  refine Emission.ensures_bind (h.asksVariableName _ hp) fun name q hname => ?_
  obtain ⟨hpq, hword, hknown⟩ := hname
  refine Emission.ensures_pure
    ⟨hpq, _, _, .literal hword.inline (.name hword.not_capability .nil) ?_ (.var name) (.leaf rfl),
      .var (.inl ⟨_, hknown⟩), ?_⟩
  · obtain ⟨c, cs, hcs, hc⟩ := hword.word.starts
    refine ⟨c, cs, hcs, ?_⟩
    rintro rfl
    exact absurd hc (by decide)
  · intro _ f hf
    dsimp only
    rw [expr_eq, htype]
    have hmeaning : meaning f.nameOf "variables_get" t.fields t.mutation
        (inputExprs f.nameOf t.inputs) =
          .var .start (f.nameOf ((t.fields.get? "VAR").getD "item")) := rfl
    rw [hmeaning, hf.nameOf hknown]
    exact .refl _

theorem exists_of_forall₂ {α β : Type} {r : α → β → Prop} {l : List α} {m : List β}
    (h : List.Forall₂ r l m) {b : β} (hb : b ∈ m) : ∃ a ∈ l, r a b := by
  induction h with
  | nil => cases hb
  | cons hhead _ ih =>
    rcases List.mem_cons.1 hb with rfl | hb
    · exact ⟨_, List.mem_cons_self, hhead⟩
    · obtain ⟨a, ha, hr⟩ := ih hb
      exact ⟨a, List.mem_cons_of_mem _ ha, hr⟩

/-- Texts are summed up from the left. -/
theorem regrouped_joined {n : Nat} {a z : Argument} {rest : List Argument} {q : Pass}
    {default : String} {e : Expr} (hsum : Regrouped e (summed a.value ((z :: rest).map Argument.value)))
    (hall : List.Forall₂ (fun (i : Nat) x => Operand t ("ADD" ++ toString i) default x.value q)
      (List.range n) (a :: z :: rest)) (ht : t.Standard) {f : Pass} (hf : q.Grows f) :
    Regrouped e (joined ((List.range n).map fun i =>
      t.operandIn f.nameOf ("ADD" ++ toString i) default)) := by
  have hvalues : List.Forall₂ Regrouped ((a :: z :: rest).map Argument.value)
      ((List.range n).map fun i => t.operandIn f.nameOf ("ADD" ++ toString i) default) := by
    rw [List.forall₂_map_left_iff, List.forall₂_map_right_iff]
    exact (hall.imp fun i x hx => hx.denotes ht f hf).flip
  cases hmeant : (List.range n).map fun i => t.operandIn f.nameOf ("ADD" ++ toString i) default with
  | nil => rw [hmeant] at hvalues; cases hvalues
  | cons x xs =>
    rw [hmeant] at hvalues
    cases xs with
    | nil => cases hvalues with | cons _ htail => cases htail
    | cons y ys =>
      cases hvalues with
      | cons hhead htail => exact hsum.trans (regrouped_summed hhead htail)

/-- The text of a value. -/
theorem says_madeText {code : String} {w : List Lexeme} {e : Expr} (h : Fits .none code w e) :
    Says .functionCall ("String(" ++ code ++ ")")
      (.name "String" :: .leftParen :: (separated [w] ++ [.rightParen]))
      (.call .start "String" [e]) := by
  have hargs : ∀ z ∈ [(⟨code, w, e⟩ : Argument)], z.Right := by
    intro z hz
    rw [List.mem_singleton.1 hz]
    exact right_of_fits h rfl rfl
  have hcall := says_call "String" ⟨fun rest => .token rfl (.token rfl (.refl rest)), by decide⟩
    ⟨'S', "tring".toList, by decide, by decide⟩ (by decide) hargs
  have hcode : "String(" ++ code ++ ")" =
      "String" ++ "(" ++ (String.intercalate ", " [code] ++ ")") := by
    rw [String.intercalate_singleton, ← String.append_assoc]
    rfl
  rw [hcode]
  exact hcall

/-- Texts with plus signs between them are their sum, grouped from the left. -/
theorem says_joined {a z : Argument} {rest : List Argument}
    (hfits : ∀ x ∈ a :: z :: rest, Fits .addition x.code x.text x.value) :
    ∃ w e, Says .addition (String.intercalate " + " ((a :: z :: rest).map Argument.code)) w e ∧
      Regrouped e (summed a.value ((z :: rest).map Argument.value)) := by
  have hcode : String.intercalate " + " ((a :: z :: rest).map Argument.code) =
      (z :: rest).foldl (fun code x => code ++ " " ++ "+" ++ " " ++ x.code) a.code := by
    rw [List.map_cons, intercalate_plus, List.foldl_map]
  rw [hcode]
  exact says_summed (hfits a List.mem_cons_self) (.refl _)
    fun x hx => hfits x (List.mem_cons_of_mem _ hx)

theorem valued_textJoin (hs : s.Shows t) (htype : t.type = "text_join")
    (h : Served known answer t) (hp : p.Sound) :
    ((textJoin s).run answer).Ensures p (Valued t p) := by
  have hmeaning (names : String → String) : t.expr names =
      joined ((List.range (joinCount t.mutation)).map fun i =>
        t.operandIn names ("ADD" ++ toString i) "''") := by
    rw [expr_eq, htype]
    rfl
  have hcount : ((t.mutation.get? "items").bind Number.natural?).getD 2 =
      joinCount t.mutation := rfl
  rw [textJoin, hs.mutation?, hcount]
  generalize joinCount t.mutation = n at hmeaning
  split
  · obtain ⟨w, hw⟩ := isLiteral_empty.spelt
    exact valued_leaf hw isLiteral_empty.names (List.forall_mem_nil _) hmeaning
  · refine Emission.ensures_bind (h.asksValue "ADD0" (by decide) isLiteral_empty hp)
      fun x q hx => ?_
    obtain ⟨hpq, v, a, ha, hmeans⟩ := hx
    have hscope : (Expr.call .start "String" [a]).InScope (q.scope t.Odd) :=
      Expr.InScope.call_iff.2 ⟨List.mem_cons_of_mem _ List.mem_cons_self,
        List.forall_mem_singleton.2 hmeans.inScope⟩
    refine Emission.ensures_pure ⟨hpq, _, _, says_madeText ha, hscope, fun ht f hf => ?_⟩
    dsimp only
    rw [hmeaning]
    exact .call "String" [] [] (hmeans.denotes ht f hf)
  · next hzero hone =>
    have haddition : Order.addition ∈ Order.places := by decide
    refine Emission.ensures_bind (h.asksValues (List.range n) (fun i => "ADD" ++ toString i)
      (fun _ => "''") haddition (fun _ => isLiteral_empty) hp) fun codes q hcodes => ?_
    obtain ⟨hpq, args, rfl, hfits, hall⟩ := hcodes
    have hlength := hall.length_eq
    rw [List.length_range] at hlength
    cases args with
    | nil => exact absurd hlength hzero
    | cons a args =>
      cases args with
      | nil => exact absurd hlength hone
      | cons z rest =>
        obtain ⟨w, e, he, hsum⟩ := says_joined hfits
        have hscope : ∀ x ∈ (a :: z :: rest).map Argument.value, x.InScope (q.scope t.Odd) := by
          intro x hx
          obtain ⟨y, hy, rfl⟩ := List.mem_map.1 hx
          obtain ⟨i, -, hoperand⟩ := exists_of_forall₂ hall hy
          exact hoperand.inScope
        refine Emission.ensures_pure
          ⟨hpq, w, e, he, hsum.inScope_iff.2 (inScope_summed hscope), fun ht f hf => ?_⟩
        dsimp only
        rw [hmeaning]
        exact regrouped_joined hsum hall ht hf

end Standard
end Generation
end VisualBlocks

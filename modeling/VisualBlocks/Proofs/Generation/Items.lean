import VisualBlocks.Proofs.Generation.Precedence

/-!
# The items of a block that joins texts

A block that joins texts asks for its items one by one, and each item stands in its text as the
expression that the item's own text is, whether in parentheses or not (`ServesItems`).  So **the
text of the block is that of its items joined**, grouped from the left, and the items are written
in the same pass (`expression_textJoin`).
-/

set_option autoImplicit false

namespace VisualBlocks
namespace Generation

open Script

variable {v : Vocabulary} {registry : Registry} {graph : Graph} {t : BlockTree} {p : Pass}
  {levels : Nat} {item : Nat → Walk String} {answer : Request → Walk String}

/-- The text of an item of a block that joins texts, by itself.  A missing item is the empty
text. -/
def Generator.itemText (g : Generator) (graph : Graph) (levels : Nat) (t : BlockTree) (i : Nat) :
    Walk String :=
  match t.input? ("ADD" ++ toString i) with
  | none => pure "''"
  | some c => (·.1) <$> g.expression graph levels c.id "''"

/-- The text is that of the expression. -/
def IsTextOf (code : String) (e : Expr) : Prop := ∃ order w, Says order code w e

theorem IsTextOf.isLeftward {code : String} {e : Expr} (h : IsTextOf code e) : e.IsLeftward := by
  obtain ⟨order, w, hsays⟩ := h
  exact hsays.isLeftward

/-- The items of a block are asked for one by one: each stands in its place as the expression that
its own text is. -/
def ServesItems (answer : Request → Walk String) (item : Nat → Walk String) : Prop :=
  ∀ (i : Nat) {outer : Order} {p : Pass}, outer ∈ Order.places → p.Sound →
    (answer (.value ("ADD" ++ toString i) outer "''")).Ensures p fun code q =>
      p.Grows q ∧ ∃ own w e, item i p = some (own, q) ∧ Fits outer code w e ∧ IsTextOf own e

theorem servesItems (hwalks : Walks v registry graph levels) (h : Walkable v registry graph t)
    (hlevels : t.blocks.length ≤ levels + 1) :
    ServesItems ((v.generator registry).answer ((v.generator registry).expression graph levels)
      ((v.generator registry).chain graph levels) t.node)
        ((v.generator registry).itemText graph levels t) := by
  intro i outer p houter hp
  rw [Generator.answer, BlockTree.node_input?, Generator.itemText]
  cases hinput : t.input? ("ADD" ++ toString i) with
  | none =>
    obtain ⟨w, hw⟩ := isLiteral_empty.spelt
    exact .pure ⟨.refl p, "''", w, _, rfl, hw.fits outer.demand_le, .atomic, w, hw⟩
  | some c =>
    have hpart := BlockTree.isPart_input hinput
    have hlength := hpart.length_lt
    obtain ⟨⟨own, order⟩, q, hrun, hmoves, w, e, he, -⟩ :=
      hwalks.expression (h.part hpart) (by omega) isLiteral_empty hp
    obtain ⟨w', hw'⟩ := he.enclose houter
    have hown : ((·.1) <$> (v.generator registry).expression graph levels c.id "''") p =
        some (own, q) := by
      show ((v.generator registry).expression graph levels c.id "''" p).bind _ = _
      rw [hrun]
      rfl
    have hanswer : ((v.generator registry).expression graph levels c.id "''").Ensures p
        fun result r => result = (own, order) ∧ r = q := ⟨_, q, hrun, rfl, rfl⟩
    refine hanswer.bind ?_
    rintro _ _ ⟨rfl, rfl⟩
    rw [generator_language]
    exact .pure ⟨hmoves.grows, own, w', e, hown, hw', order, w, he⟩

/-- **Items are asked for one after the other**, and so are their own texts. -/
theorem ServesItems.asks (h : ServesItems answer item) {outer : Order} (houter : outer ∈ Order.places)
    (hp : p.Sound) (l : List Nat) :
    ((l.mapM fun i => Emission.value ("ADD" ++ toString i) outer "''").run answer).Ensures p
      fun codes q => ∃ owns, ∃ args : List Argument, l.mapM item p = some (owns, q) ∧
        args.length = l.length ∧ args.map Argument.code = codes ∧
          (∀ x ∈ args, Fits outer x.code x.text x.value) ∧
            List.Forall₂ IsTextOf owns (args.map Argument.value) := by
  refine (Emission.ensures_mapM (fun _ q => q.Sound)
    (fun i code q r => ∃ own w e, item i q = some (own, r) ∧ Fits outer code w e ∧ IsTextOf own e)
    (fun i rest q hq => ?_) l p hp).mono fun codes q hcodes => ?_
  · exact Emission.ensures_ask ((h i houter hq).mono fun code r hr => ⟨hr.2, hr.1.sound hq⟩)
  · obtain ⟨hthreaded, -⟩ := hcodes
    clear hp
    induction hthreaded with
    | nil p => exact ⟨[], [], rfl, rfl, rfl, nofun, .nil⟩
    | @cons i code l codes p q r hhead _ ih =>
      obtain ⟨own, w, e, hitem, hfits, hown⟩ := hhead
      obtain ⟨owns, args, hmapM, hlength, rfl, hargs, howns⟩ := ih
      refine ⟨own :: owns, ⟨code, w, e⟩ :: args, ?_, congrArg _ hlength, rfl,
        List.forall_mem_cons.2 ⟨hfits, hargs⟩, .cons hown howns⟩
      rw [List.mapM_cons]
      show (item i p).bind _ = _
      rw [hitem]
      show (l.mapM item q).bind _ = _
      rw [hmapM]
      rfl

/-- **The text of a block that joins texts** is that of its items joined, up to how sums are
grouped. -/
theorem textJoin_says {s : Site} (hs : s.Shows t) (h : ServesItems answer item) (hp : p.Sound) :
    ((Standard.textJoin s).run answer).Ensures p fun result q => ∃ owns es w e,
      (List.range (BlockTree.joinCount t.mutation)).mapM item p = some (owns, q) ∧
        List.Forall₂ IsTextOf owns es ∧ Says result.2 result.1 w e ∧
          Regrouped e (BlockTree.joined es) := by
  have hcount : ((t.mutation.get? "items").bind Number.natural?).getD 2 =
      BlockTree.joinCount t.mutation := rfl
  rw [Standard.textJoin, hs.mutation?, hcount]
  generalize BlockTree.joinCount t.mutation = n
  split
  · obtain ⟨w, hw⟩ := isLiteral_empty.spelt
    exact Emission.ensures_pure ⟨[], [], w, _, rfl, .nil, hw, .refl _⟩
  · refine Emission.ensures_bind (Emission.ensures_ask (h 0 (by decide) hp)) fun code q hcode => ?_
    obtain ⟨-, own, w, e, hitem, hfits, hown⟩ := hcode
    refine Emission.ensures_pure ⟨[own], [e], _, _, ?_, .cons hown .nil,
      Standard.says_madeText hfits, .refl _⟩
    show (item 0 p).bind _ = _
    rw [hitem]
    rfl
  · next hzero hone =>
    have haddition : Order.addition ∈ Order.places := by decide
    refine Emission.ensures_bind (h.asks haddition hp (List.range n)) fun codes q hcodes => ?_
    obtain ⟨owns, args, hmapM, hlength, rfl, hfits, howns⟩ := hcodes
    rw [List.length_range] at hlength
    cases args with
    | nil => exact absurd hlength.symm hzero
    | cons a args =>
      cases args with
      | nil => exact absurd hlength.symm hone
      | cons z rest =>
        obtain ⟨w, e, he, hsum⟩ := Standard.says_joined hfits
        exact Emission.ensures_pure ⟨owns, _, w, e, hmapM, howns, he, hsum⟩

/-- The text is cut into tokens and parsed to its end as the expression. -/
def Parses (code : String) (e : Expr) : Prop :=
  ∃ ts stop, tokenize code = .ok ts ∧ parseExpression ts = .ok (e, [Token.closing stop])

theorem IsTextOf.parses {code : String} {e : Expr} (h : IsTextOf code e) :
    ∃ parsed, Parses code parsed ∧ parsed.strip = e := by
  obtain ⟨order, w, hsays⟩ := h
  obtain ⟨ts, stop, parsed, htokens, hread, hstrip⟩ := hsays.parses
  exact ⟨parsed, ⟨ts, stop, htokens, hread⟩, hstrip⟩

theorem parses_of_isTextOf {codes : List String} {es : List Expr}
    (h : List.Forall₂ IsTextOf codes es) :
    ∃ parsed, List.Forall₂ Parses codes parsed ∧ parsed.map Expr.strip = es := by
  induction h with
  | nil => exact ⟨[], .nil, rfl⟩
  | cons hhead _ ih =>
    obtain ⟨e, he, rfl⟩ := hhead.parses
    obtain ⟨es, hes, rfl⟩ := ih
    exact ⟨e :: es, .cons he hes, rfl⟩

/-- Every vocabulary has the rule for joining texts. -/
theorem rule_textJoin (v : Vocabulary) (registry : Registry) :
    (v.generator registry).rules.get? "text_join" = some (.value Standard.textJoin) := by
  cases v <;> rfl

/-- **A block that joins texts has a text**: that of its items joined, grouped from the left. -/
theorem expression_textJoin (hdefaults : LiteralDefaults registry) (h : Walkable v registry graph t)
    (htype : t.type = "text_join") (hlevels : t.blocks.length ≤ levels + 1) (hp : p.Sound)
    (default : String) :
    ∃ code order owns q e es,
      (v.generator registry).expression graph (levels + 1) t.id default p =
          some ((code, order), q) ∧
        (List.range (BlockTree.joinCount t.mutation)).mapM
          ((v.generator registry).itemText graph levels t) p = some (owns, q) ∧
        Parses code e ∧ List.Forall₂ Parses owns es ∧
        e.strip = (BlockTree.joined (es.map Expr.strip)).leftward ∧
          ∀ x ∈ es, x.strip.IsLeftward := by
  have hsite := site_shows (v := v) hdefaults h.held
  obtain ⟨⟨code, order⟩, q, hrun, owns, es, w, e, hitems, howns, hsays, hregrouped⟩ :=
    textJoin_says hsite (servesItems (walks hdefaults levels) h hlevels) hp
  obtain ⟨ts, stop, parsed, htokens, hread, rfl⟩ := hsays.parses
  have hleftward : ∀ x ∈ es, x.IsLeftward := fun x hx => by
    obtain ⟨own, -, hown⟩ := Standard.exists_of_forall₂ howns hx
    exact hown.isLeftward
  obtain ⟨es, hes, rfl⟩ := parses_of_isTextOf howns
  refine ⟨code, order, owns, q, parsed, es, ?_, hitems, ⟨ts, stop, htokens, hread⟩, hes, ?_,
    fun x hx => hleftward _ (List.mem_map_of_mem hx)⟩
  · rw [Generator.expression, site_type h.held, hsite.node, htype, rule_textJoin]
    exact hrun
  · exact hsays.isLeftward.symm.trans hregrouped.leftward_eq

end Generation
end VisualBlocks

import Mathlib.Data.List.Forall2
import VisualBlocks.Proofs.Generation.Spelling

/-!
# Expressions out of expressions

How the texts of operands become the text of an operation, one lemma for each form of expression.
Each says what the whole is written as, given that each operand fits in its place.

Sums, products, conjunctions and disjunctions are put together as chains, so what they are read as
is what they mean up to how they are grouped (`Fits.binary`, `says_summed`).
-/

set_option autoImplicit false

namespace VisualBlocks
namespace Generation

open Script

theorem mark_operator (op : BinaryOp) : Mark (" " ++ op.symbol ++ " ") [.operator op.symbol] := by
  cases op
  all_goals exact ⟨fun rest => .skip rfl (.token rfl (.skip rfl (.refl rest))), by decide⟩

theorem mark_comma : Mark ", " [.comma] := ⟨fun rest => .token rfl (.skip rfl (.refl rest)), by decide⟩

theorem mark_question : Mark " ? " [.question] :=
  ⟨fun rest => .skip rfl (.token rfl (.skip rfl (.refl rest))), by decide⟩

theorem mark_colon : Mark " : " [.colon] :=
  ⟨fun rest => .skip rfl (.token rfl (.skip rfl (.refl rest))), by decide⟩

theorem startsApart_blank (code : String) : StartsApart (" " ++ code) :=
  ⟨' ', code.toList, by rw [String.toList_append]; rfl, by decide, by decide⟩

theorem startsApart_comma : StartsApart ", " := ⟨',', [' '], by decide, by decide, by decide⟩

/-! ## Operations -/

/-- Is the order that of the operation? -/
structure Order.IsOf (o : Order) (op : BinaryOp) : Prop where
  place : o ∈ Order.places
  expression : o ∈ Order.expressions
  strength : o.strength = op.precedence
  demand : o.demand = op.precedence + 1
  chained : o.chained? = if op.regroups then some op else .none

theorem isOf_addition : Order.addition.IsOf .add := ⟨by decide, by decide, rfl, rfl, rfl⟩

section Operations

variable {order : Order} {a b c : String} {u v w : List Lexeme} {x y z : Expr}

theorem inline_binary (op : BinaryOp) (ha : Inline a v) (hb : Inline b w) :
    Inline (a ++ " " ++ op.symbol ++ " " ++ b) (v ++ .operator op.symbol :: w) := by
  have hcode : a ++ " " ++ op.symbol ++ " " ++ b = a ++ (" " ++ op.symbol ++ " ") ++ b := by
    simp only [String.append_assoc]
  have happart : StartsApart (" " ++ op.symbol ++ " ") := (startsApart_blank op.symbol).append
  have hinline := (ha.append (mark_operator op) happart).append_inline hb
  rw [List.append_assoc, List.singleton_append] at hinline
  rwa [hcode]

/-- **Two operands make an operation**, regrouped where they are operations of the same kind. -/
theorem Fits.binary {op : BinaryOp} (horder : order.IsOf op) (ha : Fits order a v x)
    (hb : Fits order b w y) :
    ∃ e, Says order (a ++ " " ++ op.symbol ++ " " ++ b) (v ++ .operator op.symbol :: w) e ∧
      Regrouped e (.binary .start op x y) := by
  have hinline := inline_binary op ha.inline hb.inline
  have hharmless : Harmless (v ++ .operator op.symbol :: w) :=
    ha.harmless.append (.cons nofun hb.harmless)
  have hleads : Leads (a ++ " " ++ op.symbol ++ " " ++ b) :=
    ha.leads.append.append.append.append
  have hchained := horder.chained
  cases hop : op.regroups with
  | false =>
    rw [hop, if_neg Bool.false_ne_true] at hchained
    have hx := ha.spells hchained
    have hy := hb.spells hchained
    rw [horder.demand] at hx hy
    have hunchained : (Expr.binary .start op x y).Unchained :=
      .binary hop ha.isLeftward hb.isLeftward
    refine ⟨_, ⟨hinline, hharmless, hleads, horder.expression, ?_, ?_, hunchained.isLeftward, ?_⟩,
      .refl _⟩
    · rw [horder.strength]
      exact .binary op (Nat.le_refl _) (hx.mono (Nat.le_succ _)) hy
    · intro other hother
      rw [hchained] at hother
      cases hother
    · intro other hother hroot
      rw [hunchained.root other hother] at hroot
      cases hroot
  | true =>
    rw [hop, if_pos rfl] at hchained
    obtain ⟨c, d, hchain, hregrouped⟩ := (ha.chain hchained).append hop (hb.chain hchained)
    refine ⟨_, ⟨hinline, hharmless, hleads, horder.expression, ?_, ?_, hchain.isLeftward hop, ?_⟩,
      hregrouped⟩
    · rw [horder.strength]
      exact hchain.spells
    · intro other hother
      rw [hchained] at hother
      obtain rfl := Option.some.inj hother
      exact hchain
    · intro other _ hroot
      rw [hchained, beq_iff_eq.1 hroot]

/-- A negated operand. -/
theorem Fits.negated (ha : Fits .logicalNot a v x) :
    Says .logicalNot ("!" ++ a) (.operator "!" :: v) (.unary .start .not x) := by
  obtain ⟨c, cs, hcs, hc⟩ := ha.leads
  have hinline : Inline (UnaryOp.not.symbol ++ a) (.operator UnaryOp.not.symbol :: v) :=
    inline_unary ha.inline hcs hc (.inl rfl)
  have hleads : Leads ("!" ++ a) := ⟨'!', a.toList, by rw [String.toList_append]; rfl, by decide⟩
  exact .atom hinline (.cons nofun ha.harmless) hleads
    (.unary .not (Nat.le_refl _) (ha.spells rfl)) (.unary .not ha.isLeftward) (by decide) rfl

/-- A choice between two operands. -/
theorem Fits.choice (ha : Fits .conditional a u x) (hb : Fits .conditional b v y)
    (hc : Fits .conditional c w z) :
    Says .conditional (a ++ " ? " ++ b ++ " : " ++ c) (u ++ .question :: (v ++ .colon :: w))
      (.conditional .start x y z) := by
  have hhead := ha.inline.append mark_question (startsApart_blank "? ")
  have htail := (hb.inline.append mark_colon (startsApart_blank ": ")).append_inline hc.inline
  have hinline := hhead.append_inline htail
  have hcode : a ++ " ? " ++ b ++ " : " ++ c = a ++ " ? " ++ (b ++ " : " ++ c) := by
    simp only [String.append_assoc]
  rw [List.append_assoc, List.append_assoc, List.singleton_append, List.singleton_append] at hinline
  have hunchained : (Expr.conditional .start x y z).Unchained :=
    .conditional ha.isLeftward hb.isLeftward hc.isLeftward
  refine ⟨by rwa [hcode], ?_, ha.leads.append.append.append.append, by decide, ?_, nofun,
    hunchained.isLeftward, nofun⟩
  · exact ha.harmless.append (.cons nofun (hb.harmless.append (.cons nofun hc.harmless)))
  · exact .conditional (ha.spells rfl) ((hb.spells rfl).mono (Nat.zero_le _))
      ((hc.spells rfl).mono (Nat.zero_le _))

end Operations

/-! ## Arguments -/

/-- An argument as it is written and what it is. -/
structure Argument where
  code : String
  text : List Lexeme
  value : Expr

/-- Is the argument right in a place where every expression can stand? -/
structure Argument.Right (x : Argument) : Prop where
  inline : Inline x.code x.text
  harmless : Harmless x.text
  spells : Spells 0 x.text x.value
  isLeftward : x.value.IsLeftward

/-- Arguments with commas between them, before a mark that ends them. -/
theorem mark_listed {args : List Argument} (h : ∀ x ∈ args, x.Right) {close : String}
    {w : List Lexeme} (hclose : Mark close w) (hapart : StartsApart close) :
    Mark (String.intercalate ", " (args.map Argument.code) ++ close)
      (separated (args.map Argument.text) ++ w) := by
  induction args with
  | nil =>
    rw [List.map_nil, List.map_nil, String.intercalate_nil, String.empty_append, separated]
    exact hclose
  | cons x rest ih =>
    have hx := (h x List.mem_cons_self).inline
    cases rest with
    | nil =>
      rw [List.map_singleton, List.map_singleton, String.intercalate_singleton, separated]
      exact hx.append hclose hapart
    | cons y rest =>
      have hrest := ih fun z hz => h z (List.mem_cons_of_mem _ hz)
      rw [List.map_cons, List.map_cons] at hrest ⊢
      rw [List.map_cons, List.map_cons, String.intercalate_cons_cons, separated, List.append_assoc,
        List.cons_append, String.append_assoc]
      have hhead := (hx.append mark_comma startsApart_comma).append hrest
      rw [List.append_assoc, List.singleton_append] at hhead
      exact hhead

theorem harmless_arguments {args : List Argument} (h : ∀ x ∈ args, x.Right) :
    Harmless (separated (args.map Argument.text)) := by
  induction args with
  | nil => exact .nil
  | cons x rest ih =>
    have hx := (h x List.mem_cons_self).harmless
    cases rest with
    | nil => exact hx
    | cons y rest =>
      rw [List.map_cons, List.map_cons, separated]
      exact hx.append (.cons (by decide) (ih fun z hz => h z (List.mem_cons_of_mem _ hz)))

theorem spells_call (callee : String) {args : List Argument} (h : ∀ x ∈ args, x.Right) {p : Nat} :
    Spells p (.name callee :: .leftParen :: (separated (args.map Argument.text) ++ [.rightParen]))
      (.call .start callee (args.map Argument.value)) := by
  have hparts : ∀ part ∈ args.map fun x => (x.text, x.value), Spells 0 part.1 part.2 := by
    intro part hpart
    obtain ⟨x, hx, rfl⟩ := List.mem_map.1 hpart
    exact (h x hx).spells
  have hcall := Spells.call (p := p) callee hparts
  rw [List.map_map, List.map_map] at hcall
  exact hcall

/-- A call of a function that scripts have for themselves. -/
theorem says_call (callee : String) (hmark : Mark (callee ++ "(") [.name callee, .leftParen])
    (hleads : Leads callee) (hfree : callee ∉ Sandbox.capabilityNames) {args : List Argument}
    (h : ∀ x ∈ args, x.Right) :
    Says .functionCall (callee ++ "(" ++ (String.intercalate ", " (args.map Argument.code) ++ ")"))
      (.name callee :: .leftParen :: (separated (args.map Argument.text) ++ [.rightParen]))
      (.call .start callee (args.map Argument.value)) :=
  .atom (hmark.append (mark_listed h mark_rightParen startsApart_rightParen)).inline
    (.name hfree (.cons nofun ((harmless_arguments h).append (.cons nofun .nil))))
    hleads.append.append (spells_call callee h) (.call callee fun e he => by
      obtain ⟨x, hx, rfl⟩ := List.mem_map.1 he
      exact (h x hx).isLeftward) (by decide) rfl

/-! ## Sums of many -/

/-- Operands one after the other, grouped from the left. -/
def summed (x : Expr) (rest : List Expr) : Expr := rest.foldl (.binary .start .add) x

theorem inScope_summed {x : Expr} {xs : List Expr} {S : Scope} (h : ∀ y ∈ x :: xs, y.InScope S) :
    (summed x xs).InScope S := by
  induction xs generalizing x with
  | nil => exact h x List.mem_cons_self
  | cons y ys ih =>
    rw [List.forall_mem_cons, List.forall_mem_cons] at h
    exact ih (List.forall_mem_cons.2 ⟨Expr.InScope.binary_iff.2 ⟨h.1, h.2.1⟩, h.2.2⟩)

theorem regrouped_summed {x y : Expr} (h : Regrouped x y) {xs ys : List Expr}
    (hall : List.Forall₂ Regrouped xs ys) : Regrouped (summed x xs) (summed y ys) := by
  induction hall generalizing x y with
  | nil => exact h
  | cons hhead _ ih => exact ih (.binary .add h hhead)

/-- **Operands with plus signs between them are a sum**, grouped from the left. -/
theorem says_summed {a : String} {v : List Lexeme} {x y : Expr} (ha : Fits .addition a v x)
    (hx : Regrouped x y) {z : Argument} {rest : List Argument}
    (hrest : ∀ z' ∈ z :: rest, Fits .addition z'.code z'.text z'.value) :
    ∃ w e,
      Says .addition ((z :: rest).foldl (fun code z => code ++ " " ++ "+" ++ " " ++ z.code) a) w e ∧
        Regrouped e (summed y ((z :: rest).map Argument.value)) := by
  induction rest generalizing a v x y z with
  | nil =>
    obtain ⟨e, he, hregrouped⟩ := Fits.binary isOf_addition ha (hrest z List.mem_cons_self)
    exact ⟨_, e, he, hregrouped.trans (.binary .add hx (.refl _))⟩
  | cons z' rest ih =>
    obtain ⟨e, he, hregrouped⟩ := Fits.binary isOf_addition ha (hrest z List.mem_cons_self)
    exact ih (he.chained rfl) (hregrouped.trans (.binary .add hx (.refl _)))
      fun z'' hz'' => hrest z'' (List.mem_cons_of_mem _ hz'')

theorem intercalate_plus (a : String) (rest : List String) :
    String.intercalate " + " (a :: rest) =
      rest.foldl (fun code z => code ++ " " ++ "+" ++ " " ++ z) a := by
  induction rest generalizing a with
  | nil => rw [String.intercalate_singleton]; rfl
  | cons z rest ih =>
    have hplus : (" + " : String) = " " ++ "+" ++ " " := rfl
    rw [List.foldl_cons, ← ih, String.intercalate_cons_cons, ← String.intercalate_cons_append, hplus]
    simp only [String.append_assoc]

end Generation
end VisualBlocks

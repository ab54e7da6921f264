import VisualBlocks.Proofs.ExpressionValues
import VisualBlocks.Proofs.Generation.Items
import VisualBlocks.Proofs.Script.Addends

/-!
# Joined texts

A block that joins texts becomes a sum of its items; only a single item is made a text first.
So it does not always give a text.

**The value of its text is the sum of the values of all addends of all items**
(`joinedTexts_value`), because items that are sums themselves stand in it without parentheses.  It
puts the items one after the other if the sum comes upon a text soon enough (`Concatenates`), and
it is no text at all if there are two items or more and none of them is one.  So numbers are not
joined but added (`numbers_added`).
-/

set_option autoImplicit false

namespace VisualBlocks

open Script
open Generation

/-! ## The value of a sum of items -/

namespace BlockTree

variable {es : List Expr} {e : Expr} {vs : List Value} {wss : List (List Value)}

/-- The values that are added up, given those of the addends of each item.  A single item is made a
text as a whole. -/
def terms : List (List Value) → List Value
  | [ws] => [Value.total ws]
  | wss => wss.flatten

/-- Does the sum of all addends put the items one after the other?  The first item or the first
addend of the second one must be a text, and no later item may begin with a sum of numbers. -/
def Concatenates : List (List Value) → Prop
  | [] | [_] => True
  | ws :: rest =>
    Value.textSoon (Value.total ws :: rest.flatten) = true ∧
      ∀ xs ∈ rest, xs.length = 1 ∨ Value.textSoon xs = true

instance : DecidablePred Concatenates := fun wss =>
  match wss with
  | [] | [_] => .isTrue trivial
  | _ :: _ :: _ => inferInstanceAs (Decidable (_ ∧ _))

/-- The texts of values that are sums, if none of the sums is one of numbers. -/
theorem displays_flatten (h : ∀ ws ∈ wss, ws.length = 1 ∨ Value.textSoon ws = true) :
    Value.displays wss.flatten = Value.displays (wss.map Value.total) := by
  induction wss with
  | nil => rfl
  | cons ws wss ih =>
    rw [List.forall_mem_cons] at h
    rw [List.flatten_cons, List.map_cons, Value.displays_append, Value.displays_cons, ih h.2]
    rcases h.1 with hone | hsoon
    · obtain ⟨w, rfl⟩ := List.length_eq_one_iff.1 hone
      rw [Value.displays_singleton]
      rfl
    · rw [Value.total_eq_of_textSoon hsoon]
      rfl

theorem summedUp_eq_total (h : 2 ≤ vs.length) : summedUp vs = Value.total vs := by
  match vs with
  | [] => exact absurd h (by simp)
  | [_] => exact absurd h (by simp)
  | _ :: _ :: _ => rfl

/-- Two items or more are added up addend by addend. -/
theorem summedUp_terms (hne : ∀ ws ∈ wss, ws ≠ []) (h : 2 ≤ wss.length) :
    summedUp (terms wss) = Value.total wss.flatten := by
  match wss with
  | [] => exact absurd h (by simp)
  | [_] => exact absurd h (by simp)
  | ws :: xs :: rest =>
    have hws : 0 < ws.length := List.length_pos_of_ne_nil (hne ws List.mem_cons_self)
    have hxs : 0 < xs.length :=
      List.length_pos_of_ne_nil (hne xs (List.mem_cons_of_mem _ List.mem_cons_self))
    refine summedUp_eq_total ?_
    rw [terms, List.flatten_cons, List.flatten_cons, List.length_append, List.length_append]
    · omega
    · exact nofun

/-- **Items that concatenate are put one after the other.** -/
theorem summedUp_eq_of_concatenates (hne : ∀ ws ∈ wss, ws ≠ []) (h : Concatenates wss) :
    summedUp (terms wss) = .string (Value.displays (wss.map Value.total)) := by
  match wss with
  | [] => rfl
  | [ws] =>
    rw [List.map_singleton, Value.displays_singleton]
    rfl
  | ws :: xs :: rest =>
    obtain ⟨hsoon, hrest⟩ := h
    calc summedUp (terms (ws :: xs :: rest))
        = Value.total (ws ++ (xs :: rest).flatten) := summedUp_terms hne (by simp)
      _ = Value.total (Value.total ws :: (xs :: rest).flatten) :=
          Value.total_append (hne ws List.mem_cons_self) _
      _ = .string ((Value.total ws).display ++ Value.displays (xs :: rest).flatten) := by
          rw [Value.total_eq_of_textSoon hsoon, Value.displays_cons]
      _ = .string (Value.displays ((ws :: xs :: rest).map Value.total)) := by
          rw [displays_flatten hrest]
          exact congrArg Value.string (Value.displays_cons _ _).symm

example : ¬ Concatenates [[.number 1], [.number 2]] := by decide

/-- **Two items or more are a text if and only if one of them is.** -/
theorem isText_summedUp (hne : ∀ ws ∈ wss, ws ≠ []) (h : 2 ≤ wss.length) :
    (summedUp (terms wss)).isText = true ↔ ∃ v ∈ wss.map Value.total, v.isText = true := by
  obtain ⟨ws, hws⟩ : ∃ ws, ws ∈ wss := List.exists_mem_of_length_pos (by omega)
  obtain ⟨w, hw⟩ := List.exists_mem_of_ne_nil ws (hne ws hws)
  have hflat : wss.flatten ≠ [] := List.ne_nil_of_mem (List.mem_flatten.2 ⟨ws, hws, hw⟩)
  rw [summedUp_terms hne h, Value.isText_total hflat]
  constructor
  · rintro ⟨v, hv, htext⟩
    obtain ⟨xs, hxs, hv⟩ := List.mem_flatten.1 hv
    exact ⟨_, List.mem_map_of_mem hxs, (Value.isText_total (hne xs hxs)).2 ⟨v, hv, htext⟩⟩
  · rintro ⟨v, hv, htext⟩
    obtain ⟨xs, hxs, rfl⟩ := List.mem_map.1 hv
    obtain ⟨x, hx, htext⟩ := (Value.isText_total (hne xs hxs)).1 htext
    exact ⟨x, List.mem_flatten.2 ⟨xs, hxs, hx⟩, htext⟩

section Eval

variable {σ : Type} {host : Host σ} {globals : Table Value} {s s' : σ}

/-- Items concatenate if the first or the second one is a text and only the first one may be a
sum. -/
theorem concatenates_of_not_sums (h : AddendValues host globals es s wss s')
    (hes : ∀ x ∈ es.tail, x.isOf .add = false)
    (htext : Value.textSoon (wss.map Value.total) = true) : Concatenates wss := by
  match es, wss, h.lengths with
  | [], [], _ => trivial
  | [_], [_], _ => trivial
  | x :: y :: es, ws :: xs :: wss, .cons _ htail =>
    have hsingle : ∀ zs ∈ xs :: wss, zs.length = 1 := by
      intro zs hzs
      obtain ⟨z, hz, hlength⟩ := Standard.exists_of_forall₂ htail hzs
      rw [hlength, Expr.addends_of_not (hes z hz)]
      rfl
    obtain ⟨b, rfl⟩ := List.length_eq_one_iff.1 (hsingle xs List.mem_cons_self)
    exact ⟨htext, fun zs hzs => .inl (hsingle zs hzs)⟩

/-- The sum of expressions has the addends of all of them, if they are grouped from the left. -/
theorem addends_of_joined (he : e.strip = (joined (es.map Expr.strip)).leftward)
    (hes : ∀ x ∈ es, x.strip.IsLeftward) (h : 2 ≤ es.length) :
    stripAll e.addends = stripAll (es.flatMap Expr.addends) := by
  match es with
  | [] => exact absurd h (by simp)
  | [_] => exact absurd h (by simp)
  | x :: y :: rest =>
    have hparts : ∀ z ∈ x :: y :: rest, z.strip.leftward.addends = stripAll z.addends := by
      intro z hz
      rw [hes z hz, Expr.addends_strip]
    calc stripAll e.addends
        = (joined ((x :: y :: rest).map Expr.strip)).leftward.addends := by
          rw [← Expr.addends_strip, he]
      _ = ((x :: y :: rest).map Expr.strip).flatMap fun z => z.leftward.addends :=
          Expr.addends_leftward_foldl _ _
      _ = (x :: y :: rest).flatMap fun z => stripAll z.addends := by
          rw [List.flatMap_map, List.flatMap_congr hparts]
      _ = stripAll ((x :: y :: rest).flatMap Expr.addends) := by
          simp only [stripAll_eq, List.map_flatMap]

/-- **What joined expressions evaluate to.**  Their text is grouped from the left, so all addends
are added up one after the other. -/
theorem eval_joined (he : e.strip = (joined (es.map Expr.strip)).leftward)
    (hes : ∀ x ∈ es, x.strip.IsLeftward)
    (h : evalArgs host globals es s = (.ok (wss.map Value.total), s'))
    (hall : AddendValues host globals es s wss s') :
    e.eval host globals s = (.ok (summedUp (terms wss)), s') := by
  refine (Expr.eval_strip_eq_ok_iff e).1 ?_
  match es, wss, hall.lengths with
  | [], [], _ =>
    cases h
    rw [he]
    rfl
  | [x], [ws], _ =>
    have hcall : e.strip = .call .start "String" (stripAll [x]) := by
      rw [he]
      show Expr.call .start "String" [x.strip.leftward] = _
      rw [hes x List.mem_cons_self]
      rfl
    rw [hcall, Expr.eval, Evaluation.bind_eq_ok_iff]
    exact ⟨_, s', (evalArgs_strip_eq_ok_iff [x]).2 h, rfl⟩
  | x :: y :: es, ws :: xs :: wss, _ =>
    have haddends := addends_of_joined he hes (by simp)
    rw [summedUp_terms hall.ne_nil (by simp), Expr.eval_strip_eq_ok_iff, Expr.eval_eq_ok_iff]
    refine ⟨_, (evalArgs_strip_eq_ok_iff _).1 ?_, rfl⟩
    rw [haddends]
    exact (evalArgs_strip_eq_ok_iff _).2 hall.evaluated

end Eval

end BlockTree

open BlockTree

/-- **What a block that joins texts evaluates to.**  It always has a text, and if its items have
values, their addends are added up one after the other.  That puts the texts of the items one after
the other if the items concatenate; otherwise it need not even be a text. -/
theorem joinedTexts_value (v : Vocabulary) {registry : Registry}
    (hdefaults : LiteralDefaults registry) {graph : Graph} {t : BlockTree}
    (h : Walkable v registry graph t) (htype : t.type = "text_join") {levels : Nat}
    (hlevels : t.blocks.length ≤ levels + 1) {p : Pass} (hp : p.Sound) (default : String) :
    ∃ code order owns q e es,
      (v.generator registry).expression graph (levels + 1) t.id default p =
          some ((code, order), q) ∧
        (List.range (joinCount t.mutation)).mapM
          ((v.generator registry).itemText graph levels t) p = some (owns, q) ∧
        Parses code e ∧ List.Forall₂ Parses owns es ∧
          ∀ {σ : Type} (host : Host σ) (globals : Table Value) (s s' : σ) (vs : List Value),
            evalArgs host globals es s = (.ok vs, s') → ∃ wss,
              AddendValues host globals es s wss s' ∧ vs = wss.map Value.total ∧
                (∃ limit m, (e.machine globals).run host limit s = (m, s', .done) ∧
                  m.stack = [summedUp (terms wss)]) ∧
                (Concatenates wss → summedUp (terms wss) = .string (Value.displays vs)) ∧
                (2 ≤ vs.length →
                  ((summedUp (terms wss)).isText = true ↔ ∃ x ∈ vs, x.isText = true)) := by
  obtain ⟨code, order, owns, q, e, es, hrun, hitems, hreads, hown, hjoined, hleftward⟩ :=
    expression_textJoin hdefaults h htype hlevels hp default
  refine ⟨code, order, owns, q, e, es, hrun, hitems, hreads, hown, ?_⟩
  intro σ host globals s s' vs hvalues
  obtain ⟨wss, hall, rfl⟩ := evalArgs_addends hvalues
  obtain ⟨limit, m, hends, hstack, -⟩ := run_of_eval (eval_joined hjoined hleftward hvalues hall)
  refine ⟨wss, hall, rfl, ⟨limit, m, hends, hstack⟩, summedUp_eq_of_concatenates hall.ne_nil,
    fun hlength => isText_summedUp hall.ne_nil ?_⟩
  rwa [List.length_map] at hlength

/-! ## Labels and numbers -/

/-- The expression of a text. -/
def parsed? (code : String) : Option Expr := do
  let ts ← (tokenize code).toOption
  let (e, _) ← (parseExpression ts).toOption
  return e

/-- A host without functions. -/
def idle : Host Unit := ⟨fun s _ _ => (none, s)⟩

/-- The value of the text of an expression without variables. -/
def valueOf? (code : String) : Option Value :=
  (parsed? code).bind fun e => (e.eval idle .empty ()).1.toOption

theorem Generation.Parses.parsed?_eq {code : String} {e : Expr} (h : Parses code e) :
    parsed? code = some e := by
  obtain ⟨ts, stop, hts, he⟩ := h
  rw [parsed?, hts]
  show (parseExpression ts).toOption.bind _ = _
  rw [he]
  rfl

theorem evalArgs_of_valueOf? {codes : List String} {es : List Expr} {vs : List Value}
    (h : List.Forall₂ Parses codes es) (hvs : codes.map valueOf? = vs.map some) :
    evalArgs idle .empty es () = (.ok vs, ()) := by
  induction h generalizing vs with
  | nil =>
    obtain rfl : vs = [] := List.map_eq_nil_iff.1 hvs.symm
    rfl
  | @cons code e codes es hhead _ ih =>
    obtain ⟨v, ws, rfl, hv, hws⟩ := List.map_eq_cons_iff.1 hvs.symm
    rw [valueOf?, hhead.parsed?_eq, Option.bind_some] at hv
    refine evalArgs_cons_eq_ok_iff.2 ⟨v, ws, (), ?_, ih hws.symm, rfl⟩
    rcases heval : e.eval idle .empty () with ⟨fault | w, u⟩
    · rw [heval] at hv
      cases hv
    · rw [heval] at hv
      cases hv
      rfl

/-- A block that joins as many texts as it says. -/
def join (count : String) (items : List (String × BlockTree)) : BlockTree :=
  .mk "join" "text_join" .empty ⟨[("items", count)]⟩ items none

/-- A text, an item that is missing, and a number. -/
def labelled : BlockTree :=
  join "3" [("ADD0", .mk "0" "text" ⟨[("TEXT", "a")]⟩ .empty [] none), ("ADD2", numberLeaf "2" "1")]

theorem labelled_joined :
    ∃ code order q e,
      (Vocabulary.standard.generator ⟨Vocabulary.standard.types⟩).expression
          ⟨["join"], labelled.blocks⟩ 3 "join" "null" .start = some ((code, order), q) ∧
        Parses code e ∧ ∃ limit m, (e.machine .empty).run idle limit () = (m, (), .done) ∧
          m.stack = [.string "a1"] := by
  have hheld : (⟨["join"], labelled.blocks⟩ : Graph).Holds labelled := by
    show ∀ b ∈ labelled.blocks, List.lookup b.1 labelled.blocks = some b.2
    decide
  have hstandard : labelled.Standard := by
    show ∀ b ∈ labelled.blocks, b.2.type ∈ valueTypes
    decide
  have hwalkable : Walkable .standard ⟨Vocabulary.standard.types⟩ ⟨["join"], labelled.blocks⟩
      labelled := ⟨hheld, by decide, oneLine_of_standard _ hstandard fun _ h =>
        valueTypes_known .standard _ h⟩
  have hlevels : labelled.blocks.length ≤ 2 + 1 := by decide
  obtain ⟨code, order, owns, q, e, es, hrun, hitems, hreads, hown, hvalue⟩ :=
    joinedTexts_value .standard (literalDefaults_types .standard) hwalkable rfl hlevels
      Pass.sound_start "null"
  have htexts : (List.range (joinCount labelled.mutation)).mapM
      ((Vocabulary.standard.generator ⟨Vocabulary.standard.types⟩).itemText
        ⟨["join"], labelled.blocks⟩ 2 labelled) .start =
          some (["'a'", "''", "1"], .start) := by decide +kernel
  obtain ⟨rfl, rfl⟩ := Prod.mk.inj (Option.some.inj (htexts.symm.trans hitems))
  have hvalues : evalArgs idle .empty es () = (.ok [.string "a", .string "", .number 1], ()) :=
    evalArgs_of_valueOf? hown (by decide +kernel)
  obtain ⟨wss, hall, hvs, ⟨limit, m, hends, hstack⟩, hconcatenates, -⟩ :=
    hvalue idle .empty () () _ hvalues
  have hsums : ∀ code ∈ ["'a'", "''", "1"], (parsed? code).all (fun x => !x.isOf .add) = true := by
    decide +kernel
  have hes : ∀ x ∈ es.tail, x.isOf .add = false := by
    intro x hx
    obtain ⟨code, hcode, hparses⟩ := Standard.exists_of_forall₂ hown (List.mem_of_mem_tail hx)
    have hsum := hsums code hcode
    rwa [hparses.parsed?_eq, Option.all_some, Bool.not_eq_true'] at hsum
  refine ⟨code, order, _, e, hrun, hreads, limit, m, hends, ?_⟩
  rw [hstack, hconcatenates (concatenates_of_not_sums hall hes (by rw [← hvs]; rfl))]
  have hdisplays : Value.displays [.string "a", .string "", .number 1] = "a1" := by decide +kernel
  rw [hdisplays]

/-- Two numbers. -/
def twoNumbers : BlockTree := join "2" [("ADD0", numberLeaf "0" "1"), ("ADD1", numberLeaf "1" "2")]

/-- **Numbers are not joined.**  The text of two numbers is their sum. -/
theorem numbers_added :
    Vocabulary.standard.preset.generator.expression ⟨["join"], twoNumbers.blocks⟩
        (Generator.levels ⟨["join"], twoNumbers.blocks⟩) "join" "null" .start =
          some (("1 + 2", .addition), .start) ∧
      (List.range (joinCount twoNumbers.mutation)).mapM
        (Vocabulary.standard.preset.generator.itemText ⟨["join"], twoNumbers.blocks⟩
          (Generator.levels ⟨["join"], twoNumbers.blocks⟩) twoNumbers) .start =
            some (["1", "2"], .start) ∧
      ["1", "2"].map valueOf? = [some (.number 1), some (.number 2)] ∧
      valueOf? "1 + 2" = some (.number 3) ∧
      Value.displays [.number 1, .number 2] = "12" :=
  ⟨by decide +kernel, by decide +kernel, by decide +kernel, by decide +kernel, by decide +kernel⟩

end VisualBlocks

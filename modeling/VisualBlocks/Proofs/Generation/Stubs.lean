import VisualBlocks.Generation.Automation
import VisualBlocks.Proofs.Generation.InlineComments
import VisualBlocks.Proofs.Generation.Statements

/-!
# Blocks that become comments

The automation blocks, and the blocks that no rule knows, stand in a program as comments.  A comment
inside a line may hold anything that is on one line; a comment to the end of its line is a line, if
what it holds is on one line.  So every text that goes into a comment is asked for one thing, that
there is no line break in it, and the texts of expressions have none (`Fits.inline`).
-/

set_option autoImplicit false

namespace VisualBlocks
namespace Generation

open Script BlockTree

/-! ## Comments -/

/-- A comment inside a line is nothing. -/
theorem mark_inlineComment {text : String} (h : '\n' ∉ text.toList) :
    Mark (scriptLanguage.inlineComment text) [] := by
  refine ⟨passage_inlineComment text, ?_⟩
  rw [toList_inlineComment]
  simp only [List.mem_cons, List.mem_append, not_or]
  refine ⟨by decide, by decide, by decide, fun hmem => ?_, by decide, by decide, by decide,
    List.not_mem_nil⟩
  rcases mem_opened hmem with hmem | hblank
  · exact h hmem
  · exact absurd hblank (by decide)

/-- A comment inside a line before a literal is that literal. -/
theorem says_commented {text default : String} (h : '\n' ∉ text.toList) (hliteral : IsLiteral default) :
    ∃ w, Says .atomic (scriptLanguage.inlineComment text ++ " " ++ default) w (ofLiteral default) := by
  obtain ⟨w, hw⟩ := hliteral.spelt
  have hblank : Mark " " [] := ⟨fun rest => .skip rfl (.refl rest), by decide⟩
  have hinline := ((mark_inlineComment h).append hblank).append_inline hw.inline
  have hleads : Leads (scriptLanguage.inlineComment text ++ " " ++ default) := by
    refine Leads.append (Leads.append ?_)
    rw [Language.inlineComment]
    exact .append (.append (.append (.append ⟨'/', ['*'], by decide, by decide⟩)))
  exact ⟨w, .literal hinline hw.harmless hleads hw.spells (unchained_ofLiteral _)⟩

/-- A comment to the end of its line is a line. -/
theorem lines_lineComment {text : String} (h : '\n' ∉ text.toList) (hsolid : Solid text) :
    Lines (scriptLanguage.lineComment text) [] := by
  obtain ⟨c, hlast, hc⟩ := hsolid
  have hne : text.toList ≠ [] := by
    intro hnil
    rw [hnil] at hlast
    cases hlast
  have hend : ∀ d ∈ text.toList.getLast?, Text.isBlank d = false := by
    intro d hd
    rw [hlast] at hd
    obtain rfl := Option.some.inj hd
    exact hc
  refine Lines.single (Line.comment text.toList h hne hend) ?_
  rw [String.toList_append, String.toList_append]
  rfl

/-- A comment to the end of its line is no statement. -/
theorem stands_lineComment {text : String} (h : '\n' ∉ text.toList) (hsolid : Solid text)
    (quiet : Prop) (S : Scope) : Stands (scriptLanguage.lineComment text) [] quiet S [] :=
  .comment (lines_lineComment h hsolid) quiet S

theorem lineBreak_not_mem_intercalate (separator : String) (hseparator : '\n' ∉ separator.toList)
    {codes : List String} (h : ∀ code ∈ codes, '\n' ∉ code.toList) :
    '\n' ∉ (String.intercalate separator codes).toList := by
  induction codes with
  | nil =>
    rw [String.intercalate_nil]
    decide
  | cons code rest ih =>
    cases rest with
    | nil =>
      rw [String.intercalate_singleton]
      exact h code List.mem_cons_self
    | cons code' rest =>
      rw [String.intercalate_cons_cons]
      exact lineBreak_not_mem_append (lineBreak_not_mem_append (h code List.mem_cons_self) hseparator)
        (ih fun c hc => h c (List.mem_cons_of_mem _ hc))

namespace Automation

variable {known : String → Bool} {answer : Request → Walk String} {t : BlockTree} {s : Site}
  {p : Pass}

theorem lineBreak_not_mem_call {method : String} (hmethod : '\n' ∉ method.toList)
    {args : List String} (h : ∀ code ∈ args, '\n' ∉ code.toList) :
    '\n' ∉ (call method args).toList := by
  rw [call]
  have hargs := lineBreak_not_mem_intercalate ", " (by decide) h
  exact lineBreak_not_mem_append (lineBreak_not_mem_append (lineBreak_not_mem_append
    (lineBreak_not_mem_append (by decide) hmethod) (by decide)) hargs) (by decide)

/-- Arguments are on one line. -/
theorem ensures_arguments (hs : s.Shows t) (h : Served known answer t) (hp : p.Sound)
    (sockets : List String) :
    ((arguments s sockets).run answer).Ensures p fun codes q =>
      p.Moves q ∧ ∀ code ∈ codes, '\n' ∉ code.toList := by
  have hnone : Order.none ∈ Order.places := by decide
  refine (h.asksValues sockets (fun socket => socket) s.socketDefault hnone
    hs.isLiteral_socketDefault hp).mono fun codes q hcodes => ?_
  obtain ⟨hpq, args, rfl, hfits, -⟩ := hcodes
  refine ⟨hpq, fun code hcode => ?_⟩
  obtain ⟨x, hx, rfl⟩ := List.mem_map.1 hcode
  exact (hfits x hx).inline.oneLine

/-! ## The rules -/

/-- Lines of comments are nothing, for a block that is nothing. -/
theorem stated_comment {q : Pass} {text : String} (hpq : p.Moves q) (h : '\n' ∉ text.toList)
    (hsolid : Solid text) (hshape : shape t.type t.mutation (inputOutlines known t.inputs) = []) :
    Stated known t p (scriptLanguage.lineComment text) q := by
  refine ⟨fun id hid => .inl ?_, ?_⟩
  · rwa [← hpq.visited]
  · rw [hshape, closeLine_of_lines (lines_lineComment h hsolid)]
    exact .of_moves hpq (stands_lineComment h hsolid t.Quiet _)

theorem stated_stub {method : String} (hmethod : '\n' ∉ method.toList) (sockets : List String)
    (hs : s.Shows t) (h : Served known answer t) (hp : p.Sound)
    (hshape : shape t.type t.mutation (inputOutlines known t.inputs) = []) :
    ((do return s.language.lineComment (call method (← arguments s sockets) ++ ";") :
      Emission String).run answer).Ensures p (Stated known t p) := by
  refine Emission.ensures_bind (ensures_arguments hs h hp sockets) fun codes q hcodes => ?_
  rw [hs.language]
  refine Emission.ensures_pure (stated_comment hcodes.1 ?_ solid_semicolon.append hshape)
  exact lineBreak_not_mem_append (lineBreak_not_mem_call hmethod hcodes.2) (by decide)

theorem stated_pressKey (hs : s.Shows t) (htype : t.type = "sap_press_key") :
    ((pressKey s).run answer).Ensures p (Stated known t p) := by
  rw [pressKey, hs.language]
  refine Emission.ensures_pure (stated_comment (.refl p) ?_ solid_semicolon.append
    (by rw [htype]; rfl))
  refine lineBreak_not_mem_append (lineBreak_not_mem_call (by decide) fun code hcode => ?_)
    (by decide)
  rw [List.mem_singleton.1 hcode]
  exact lineBreak_not_mem_quote _

/-- **What is in a table block stays live** between two comments. -/
theorem stated_inTable (hs : s.Shows t) (htype : t.type = "sap_in_table")
    (h : Served known answer t) (hp : p.Sound)
    (hvisited : ∀ socket, ∀ id ∈ t.inputIds socket, id ∉ p.visited) :
    ((inTable s).run answer).Ensures p (Stated known t p) := by
  rw [inTable]
  refine Emission.ensures_bind (h.asksValue "TABLE_ID" (by decide)
    (hs.isLiteral_socketDefault _) hp) fun table q htable => ?_
  obtain ⟨hpq, w, e, hfits, -⟩ := htable
  have hfresh : ∀ id ∈ t.inputIds "DO", id ∉ q.visited := by
    rw [hpq.visited]
    exact hvisited "DO"
  refine Emission.ensures_bind (h.asksIndentedBody hs "DO" (hpq.grows.sound hp) hfresh)
    fun body r hbody => ?_
  obtain ⟨hentered, hwrote⟩ := hbody
  have hmark (word : String) (hword : '\n' ∉ word.toList) (p : Pass) : Wrote t.licence [] p
      (s.language.lineComment ("--- " ++ word ++ " table " ++ table ++ " ---")) p := by
    rw [hs.language]
    refine .of_moves (.refl p) (stands_lineComment ?_ (Solid.append ⟨'-', by decide, by decide⟩) _ _)
    exact lineBreak_not_mem_append (lineBreak_not_mem_append (lineBreak_not_mem_append
      (lineBreak_not_mem_append (by decide) hword) (by decide)) hfits.inline.oneLine) (by decide)
  have hwhole :=
    ((hmark "begin" (by decide) q).append hwrote).append (hmark "end" (by decide) r)
  refine Emission.ensures_pure ⟨fun id hid => ?_, ?_⟩
  · rw [← hpq.visited]
    exact (hentered id hid).imp_right fun hid => ⟨"DO", hid⟩
  · have hshape : shape t.type t.mutation (inputOutlines known t.inputs) =
        t.bodyOutlines known "DO" := by rw [htype]; rfl
    rw [List.nil_append, List.append_nil] at hwhole
    rw [hshape]
    exact (hwhole.after hpq.grows hpq.counters).reword fun _ _ h => h.closeLine

theorem valued_stub {method : String} (hmethod : '\n' ∉ method.toList) (sockets : List String)
    (hs : s.Shows t) (h : Served known answer t) (hp : p.Sound) (htype : t.type ∉ valueTypes) :
    ((do
      let comment := s.language.inlineComment (call method (← arguments s sockets))
      return (comment ++ " " ++ s.outputDefault, .atomic) :
      Emission (String × Order)).run answer).Ensures p (Valued t p) := by
  refine Emission.ensures_bind (ensures_arguments hs h hp sockets) fun codes q hcodes => ?_
  rw [hs.language]
  obtain ⟨w, hw⟩ :=
    says_commented (lineBreak_not_mem_call hmethod hcodes.2) (isLiteral_outputDefault s)
  exact Emission.ensures_pure ⟨hcodes.1, w, _, hw, (isLiteral_outputDefault s).names.inScope nofun,
    fun ht => absurd ht.type_mem htype⟩

end Automation
end Generation
end VisualBlocks

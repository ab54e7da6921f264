import VisualBlocks.Generation.Canvas
import VisualBlocks.Proofs.Generation.Values

/-!
# The rules for statements

Each rule for a statement block gives lines of the form of the block (`Stated`).  A body is asked
for at most once for each input, which is what keeps the chains in the inputs from being taken for
circles: the invariant of a condition with many branches is that the blocks of the branches still
to come have not been entered (`stated_controlsIf`).
-/

set_option autoImplicit false

namespace VisualBlocks
namespace Generation

open Script BlockTree

/-! ## The line of a statement -/

theorem closeLine_of_solid {code : String} (h : Solid code) : closeLine code = code ++ "\n" := by
  obtain ⟨c, hlast, hc⟩ := h
  have hne : code.isEmpty = false := by
    rw [Bool.eq_false_iff]
    intro hempty
    rw [String.isEmpty_iff.1 hempty] at hlast
    cases hlast
  have hbreak : ¬ (some c == some '\n') = true := by
    rw [beq_iff_eq]
    intro heq
    rw [Option.some.inj heq] at hc
    exact absurd hc (by decide)
  rw [closeLine, hne, hlast, Bool.false_or, if_neg hbreak]

theorem closeLine_of_lines {code : String} {w : List Lexeme} (h : Lines code w) :
    closeLine code = code := by
  obtain ⟨ls, hcode, -⟩ := h
  rw [closeLine]
  refine if_pos ?_
  cases hls : ls.reverse with
  | nil =>
    obtain rfl := List.reverse_eq_nil_iff.1 hls
    rw [Bool.or_eq_true]
    exact .inl (String.isEmpty_iff.2 (String.toList_eq_nil_iff.1 hcode))
  | cons l rest =>
    have hsplit : ls = rest.reverse ++ [l] := by
      rw [← List.reverse_cons, ← hls, List.reverse_reverse]
    rw [Bool.or_eq_true]
    refine .inr ?_
    rw [hcode, hsplit, List.flatMap_append, List.flatMap_singleton, Line.ended,
      ← List.append_assoc, List.getLast?_concat]
    exact beq_self_eq_true _

theorem mark_semicolon : Mark ";" [.semicolon] := ⟨fun rest => .token rfl (.refl rest), by decide⟩

theorem startsApart_semicolon : StartsApart ";" := ⟨';', [], by decide, by decide, by decide⟩

theorem solid_semicolon : Solid ";" := ⟨';', by decide, by decide⟩

/-- A simple statement with its semicolon is a line. -/
theorem stands_simple {code : String} {w : List Lexeme} {s : Statement} {quiet : Prop} {S : Scope}
    (hcode : Mark code (w ++ [.semicolon])) (hsolid : Solid code) (hs : Simple w s)
    (hharmless : quiet → Harmless w) (hscoped : Scoped S [s]) :
    Stands (code ++ "\n") [s.outline] quiet S [] := by
  refine ⟨w ++ [.semicolon], [s], (Unfinished.ofMark hcode).ended hsolid, .simple hs .nil, rfl,
    fun hquiet => (hharmless hquiet).append (.cons nofun .nil), hscoped, ?_⟩
  cases hs <;> rfl

/-- An expression as a statement. -/
theorem stands_asStatement {order : Order} {code : String} {w : List Lexeme} {e : Expr} {S : Scope}
    (h : Says order code w e) (hscope : e.InScope S) (quiet : Prop) :
    Stands (asStatement code) [.expr] quiet S [] := by
  have hcode : asStatement code = code ++ ";" ++ "\n" := by
    have hend : (";\n" : String) = ";" ++ "\n" := rfl
    rw [asStatement, hend, String.append_assoc]
  rw [hcode]
  exact stands_simple (h.inline.append mark_semicolon startsApart_semicolon)
    solid_semicolon.append (.expr (h.spells.mono (Nat.zero_le _))) (fun _ => h.harmless)
    (.expr hscope (.nil S))

theorem Stands.indentWith {code : String} {form : List Outline} {quiet : Prop} {S : Scope}
    {counters : List String} (h : Stands code form quiet S counters) :
    Stands (Text.indentWith "  " code) form quiet S counters := by
  obtain ⟨w, ss, hlines, hrest⟩ := h
  exact ⟨w, ss, hlines.indentWith (List.all_eq_true.1 (by decide)) (by decide), hrest⟩

theorem Stands.closeLine {code : String} {form : List Outline} {quiet : Prop} {S : Scope}
    {counters : List String} (h : Stands code form quiet S counters) :
    Stands (Generation.closeLine code) form quiet S counters := by
  obtain ⟨w, ss, hlines, hrest⟩ := h
  rw [closeLine_of_lines hlines]
  exact ⟨w, ss, hlines, hrest⟩

/-! ## Bodies -/

section Bodies

variable {known : String → Bool} {answer : Request → Walk String} {t : BlockTree} {s : Site}
  {p : Pass}

theorem Served.asksIndentedBody (h : Served known answer t) (hs : s.Shows t) (socket : String)
    (hp : p.Sound) (hvisited : ∀ id ∈ t.inputIds socket, id ∉ p.visited) :
    ((s.indentedBody socket).run answer).Ensures p fun code q =>
      (∀ id ∈ q.visited, id ∈ p.visited ∨ id ∈ t.inputIds socket) ∧
        Wrote t.licence (t.bodyOutlines known socket) p code q := by
  rw [Site.indentedBody, hs.indent]
  refine Emission.ensures_bind (h.asksBody socket hp hvisited) fun code q hcode => ?_
  exact Emission.ensures_pure ⟨hcode.1, hcode.2.reword fun _ _ h => h.indentWith⟩

/-- A statement that enters no block. -/
theorem stated_simple {q : Pass} {code : String} (hpq : p.Moves q) {o : Outline}
    (hstands : Stands (closeLine code) [o] t.Quiet (q.scope t.Odd) [])
    (hshape : shape t.type t.mutation (inputOutlines known t.inputs) = [o]) :
    Stated known t p code q := by
  refine ⟨fun id hid => .inl ?_, ?_⟩
  · rwa [← hpq.visited]
  · rw [hshape]
    exact .of_moves hpq hstands

end Bodies

namespace Standard

variable {known : String → Bool} {answer : Request → Walk String} {t : BlockTree} {s : Site}
  {p : Pass}

/-! ## Assignments and calls -/

/-- An assignment is one line, whatever it does with the old value. -/
theorem stated_assign (op : AssignOp) (hs : s.Shows t) (h : Served known answer t) (hp : p.Sound)
    {socket : String} (hmark : Mark (" " ++ op.symbol ++ " ") [.operator op.symbol])
    (hshape : shape t.type t.mutation (inputOutlines known t.inputs) = [.assign]) :
    ((assign s op.symbol socket).run answer).Ensures p (Stated known t p) := by
  rw [assign, hs.fieldOr]
  refine Emission.ensures_bind (h.asksValue socket (by decide) isLiteral_zero hp) fun x q hx => ?_
  obtain ⟨hpq, w, e, hfits, hoperand⟩ := hx
  refine Emission.ensures_bind (h.asksVariableName _ (hpq.grows.sound hp)) fun name r hname => ?_
  obtain ⟨hqr, hword, hknown⟩ := hname
  refine Emission.ensures_pure (stated_simple (hpq.trans hqr) ?_ hshape)
  have hcode : name ++ " " ++ op.symbol ++ " " ++ x ++ ";" =
      name ++ (" " ++ op.symbol ++ " ") ++ x ++ ";" := by
    simp only [String.append_assoc]
  have happart : StartsApart (" " ++ op.symbol ++ " ") := (startsApart_blank op.symbol).append
  have hline := ((hword.inline.append hmark happart).append_inline hfits.inline).append
    mark_semicolon startsApart_semicolon
  rw [closeLine_of_solid solid_semicolon.append, hcode]
  exact stands_simple hline solid_semicolon.append (.assign name op (hfits.spells rfl))
    (fun _ => .name hword.not_capability (.cons nofun hfits.harmless))
    (.assign (.inl ⟨_, hknown⟩) (hoperand.grows hqr.grows).inScope (.nil _))

theorem stated_variablesSet (hs : s.Shows t) (htype : t.type = "variables_set")
    (h : Served known answer t) (hp : p.Sound) :
    ((variablesSet s).run answer).Ensures p (Stated known t p) :=
  stated_assign .set hs h hp
    ⟨fun rest => .skip rfl (.token rfl (.skip rfl (.refl rest))), by decide⟩ (by rw [htype]; rfl)

theorem stated_mathChange (hs : s.Shows t) (htype : t.type = "math_change")
    (h : Served known answer t) (hp : p.Sound) :
    ((mathChange s).run answer).Ensures p (Stated known t p) :=
  stated_assign .add hs h hp
    ⟨fun rest => .skip rfl (.token rfl (.skip rfl (.refl rest))), by decide⟩ (by rw [htype]; rfl)

/-- A call as a statement. -/
theorem stands_call {callee : String} (hmark : Mark (callee ++ "(") [.name callee, .leftParen])
    (hcallee : callee ∈ scriptFunctions) {args : List Argument} (h : ∀ x ∈ args, x.Right)
    {p : Pass} (hscope : ∀ x ∈ args, x.value.InScope (p.scope t.Odd)) {quiet : Prop}
    (hloud : ¬ quiet) :
    Stands (closeLine
      (callee ++ "(" ++ (String.intercalate ", " (args.map Argument.code) ++ ")") ++ ";"))
      [.expr] quiet (p.scope t.Odd) [] := by
  have hlist := mark_listed h mark_rightParen startsApart_rightParen
  have hline := (hmark.append hlist).append mark_semicolon
  rw [closeLine_of_solid solid_semicolon.append]
  refine stands_simple hline solid_semicolon.append (.expr (spells_call callee h))
    (fun hquiet => absurd hquiet hloud)
    (.expr (Expr.InScope.call_iff.2 ⟨hcallee, fun e he => ?_⟩) (.nil _))
  obtain ⟨x, hx, rfl⟩ := List.mem_map.1 he
  exact hscope x hx

theorem stated_textPrint (htype : t.type = "text_print") (h : Served known answer t)
    (hp : p.Sound) : ((textPrint s).run answer).Ensures p (Stated known t p) := by
  rw [textPrint]
  refine Emission.ensures_bind (h.asksValue "TEXT" (by decide) isLiteral_empty hp)
    fun x q hx => ?_
  obtain ⟨hpq, w, e, hfits, hoperand⟩ := hx
  have hargs : ∀ z ∈ [(⟨x, w, e⟩ : Argument)], z.Right := by
    intro z hz
    rw [List.mem_singleton.1 hz]
    exact right_of_fits hfits rfl rfl
  have hcode : "window.alert(" ++ x ++ ");" =
      "window.alert" ++ "(" ++ (String.intercalate ", " [x] ++ ")") ++ ";" := by
    have hend : (");" : String) = ")" ++ ";" := rfl
    rw [String.intercalate_singleton, hend, ← String.append_assoc, ← String.append_assoc]
    rfl
  have hloud : ¬ t.Quiet := fun hquiet => hquiet.type_not_mem (by rw [htype]; decide)
  refine Emission.ensures_pure (stated_simple hpq ?_ (by rw [htype]; rfl))
  rw [hcode]
  exact stands_call ⟨fun rest => .token rfl (.token rfl (.refl rest)), by decide⟩ (by decide) hargs
    (List.forall_mem_singleton.2 hoperand.inScope) hloud

theorem stated_circle (hs : s.Shows t) (htype : t.type = "draw_circle")
    (h : Served known answer t) (hp : p.Sound) :
    ((Canvas.circle s).run answer).Ensures p (Stated known t p) := by
  have hnone : Order.none ∈ Order.places := by decide
  rw [Canvas.circle]
  refine Emission.ensures_bind (h.asksValues ["X", "Y", "RADIUS"] (fun socket => socket)
    s.socketDefault hnone hs.isLiteral_socketDefault hp) fun codes q hcodes => ?_
  obtain ⟨hpq, args, rfl, hfits, hall⟩ := hcodes
  have hscope : ∀ x ∈ args, x.value.InScope (q.scope t.Odd) := by
    intro x hx
    obtain ⟨socket, -, hoperand⟩ := exists_of_forall₂ hall hx
    exact hoperand.inScope
  have hcode : Sandbox.drawCircle ++ "(" ++
      String.intercalate ", " (args.map Argument.code) ++ ");" =
        Sandbox.drawCircle ++ "(" ++
          (String.intercalate ", " (args.map Argument.code) ++ ")") ++ ";" := by
    have hend : (");" : String) = ")" ++ ";" := rfl
    rw [hend]
    simp only [String.append_assoc]
  have hloud : ¬ t.Quiet := fun hquiet => hquiet.type_not_mem (by rw [htype]; decide)
  refine Emission.ensures_pure (stated_simple hpq ?_ (by rw [htype]; rfl))
  rw [hcode]
  exact stands_call ⟨fun rest => .token rfl (.token rfl (.refl rest)), by decide⟩ (by decide)
    (fun x hx => right_of_fits (hfits x hx) rfl rfl) hscope hloud

/-! ## Loops -/

/-- A statement with one body, in braces after its head. -/
theorem stands_braced (quiet : Prop) {head body : String} {u w : List Lexeme}
    (hhead : Inline head u) (hbody : Lines body w) {ss : List Statement} {S : Scope}
    (hwrites : Writes (u ++ .leftBrace :: (w ++ [.rightBrace])) ss)
    (hharmless : quiet → Harmless (u ++ .leftBrace :: (w ++ [.rightBrace])))
    (hscoped : Scoped S ss) :
    Stands (closeLine (braced head body ++ "\n")) (outlines ss) quiet S (bodyCounters ss) := by
  have hsolid : Solid (braced head body) := Solid.append ⟨'\x7d', by decide, by decide⟩
  have hwhole := Unfinished.nil.braced hhead hbody
  rw [List.nil_append, String.empty_append] at hwhole
  have hlines : Lines (braced head body ++ "\n") _ := hwhole.ended hsolid
  refine ⟨_, ss, ?_, hwrites, rfl, hharmless, hscoped, rfl⟩
  rw [closeLine_of_lines hlines]
  exact hlines

/-- The head of a loop that counts: `c` from zero as long as it is below `times`. -/
theorem mark_countHead {c times : String} {w : List Lexeme} (hc : ScriptName c)
    (htimes : Inline times w) :
    Mark ("for (var " ++ c ++ " = 0; " ++ c ++ " < " ++ times ++ "; " ++ c ++ "++)")
      (.keyword "for" :: .leftParen :: ([.keyword "var", .name c, .operator "=", ⟨.number, "0"⟩] ++
        .semicolon :: ([.name c, .operator "<"] ++ w ++ .semicolon ::
          ([.name c, .operator "++"] ++ [.rightParen])))) := by
  have hfor : Mark "for (var " [.keyword "for", .leftParen, .keyword "var"] :=
    ⟨fun rest => .token rfl (.skip rfl (.token rfl (.token rfl (.skip rfl (.refl rest))))),
      by decide⟩
  have hzero : Mark " = 0; " [.operator "=", ⟨.number, "0"⟩, .semicolon] :=
    ⟨fun rest => .skip rfl (.token rfl (.skip rfl (.token rfl (.token rfl (.skip rfl
      (.refl rest)))))), by decide⟩
  have hless : Mark " < " [.operator "<"] :=
    ⟨fun rest => .skip rfl (.token rfl (.skip rfl (.refl rest))), by decide⟩
  have hnext : Mark "; " [.semicolon] :=
    ⟨fun rest => .token rfl (.skip rfl (.refl rest)), by decide⟩
  have hstep : Mark "++)" [.operator "++", .rightParen] :=
    ⟨fun rest => .token rfl (.token rfl (.refl rest)), by decide⟩
  have hnextApart : StartsApart "; " := ⟨';', [' '], by decide, by decide, by decide⟩
  have hstepApart : StartsApart "++)" := ⟨'+', "+)".toList, by decide, by decide, by decide⟩
  have hinit := (hfor.append_inline hc.inline).append hzero (startsApart_blank "= 0; ")
  have hcondition := ((hinit.append_inline hc.inline).append hless
    (startsApart_blank "< ")).append_inline htimes
  have hupdate := (hcondition.append hnext hnextApart).append_inline hc.inline
  have hhead := hupdate.append hstep hstepApart
  simp only [List.append_assoc, List.cons_append, List.nil_append] at hhead ⊢
  exact hhead

theorem harmless_countLoop {c : String} {v w : List Lexeme} (hc : ScriptName c) (hv : Harmless v)
    (hw : Harmless w) :
    Harmless (.keyword "for" :: .leftParen ::
      ([.keyword "var", .name c, .operator "=", ⟨.number, "0"⟩] ++ .semicolon ::
        ([.name c, .operator "<"] ++ v ++ .semicolon ::
          ([.name c, .operator "++"] ++ .rightParen :: .leftBrace :: (w ++ [.rightBrace]))))) := by
  have hname := hc.not_capability
  have hbody : Harmless (.leftBrace :: (w ++ [.rightBrace])) :=
    .cons nofun (hw.append (.cons nofun .nil))
  have hupdate : Harmless ([.name c, .operator "++"] ++ .rightParen :: .leftBrace ::
      (w ++ [.rightBrace])) := .name hname (.cons nofun (.cons nofun hbody))
  have hcondition : Harmless ([.name c, .operator "<"] ++ v) := .name hname (.cons nofun hv)
  refine .cons nofun (.cons nofun ?_)
  exact .cons nofun (.name hname (.cons nofun (.cons nofun
    (.cons nofun (hcondition.append (.cons nofun hupdate))))))

/-- The counter is declared in the head of the loop, and it may be named there. -/
theorem scoped_countLoop {S : Scope} {c : String} {x : Float} {times : Expr} {ss : List Statement}
    (htimes : times.InScope S) (hbody : Scoped S ss) :
    Scoped S [.forLoop .start (some (.declare .start [(c, some (.number .start x))]))
      (some (.binary .start .lt (.var .start c) times)) (some (.assign .start c .add (.number .start 1)))
      ss] := by
  have hcounter : (S.extend [c]).vars c := .inr List.mem_cons_self
  have hnumber (x : Float) (S : Scope) : (Expr.number .start x).InScope S := ⟨nofun, nofun⟩
  have hwithin := S.within_extend [c]
  refine .forLoop (.declare ?_ (.nil _)) ?_ (hbody.mono hwithin)
    (.assign hcounter (hnumber 1 _) (.nil _)) (.nil _)
  · intro d hd e he
    rw [List.mem_singleton.1 hd] at he
    obtain rfl := Option.some.inj he
    exact hnumber x S
  · intro e he
    obtain rfl := Option.some.inj he
    exact Expr.InScope.binary_iff.2 ⟨.var hcounter, htimes.mono hwithin⟩

/-- **A loop that counts has its body in braces**, and the counter is no other name. -/
theorem stated_repeatLoop (hs : s.Shows t) (h : Served known answer t) (hp : p.Sound)
    (hvisited : ∀ socket, ∀ id ∈ t.inputIds socket, id ∉ p.visited) {times : String}
    {w : List Lexeme} {e : Expr} (htimes : Fits .relational times w e)
    (hscope : e.InScope (p.scope t.Odd))
    (hshape : shape t.type t.mutation (inputOutlines known t.inputs) =
      [.forLoop (t.bodyOutlines known "DO")]) :
    ((repeatLoop s times).run answer).Ensures p (Stated known t p) := by
  rw [repeatLoop]
  refine Emission.ensures_bind (h.asksIndentedBody hs "DO" hp (hvisited "DO")) fun body q hbody => ?_
  obtain ⟨hentered, hpq, cs, ⟨v, ss, hlines, hwrites, hform, hv, hscoped, rfl⟩, hcounters⟩ := hbody
  refine Emission.ensures_bind (h.asksFreshName "count") fun c r hc => ?_
  obtain ⟨hqr, hunentered, hnamed, hword⟩ := hc
  refine Emission.ensures_pure ⟨fun id hid => ?_, hpq.trans hqr, bodyCounters ss ++ [c], ?_, ?_⟩
  · rw [hunentered] at hid
    exact (hentered id hid).imp_right fun hid => ⟨"DO", hid⟩
  · have hzero : IsNumeral ['0'] :=
      ⟨['0'], [], List.all_eq_true.1 (by decide), nofun, by decide, .inl rfl⟩
    obtain ⟨x, hx⟩ := Option.isSome_iff_exists.1 (Number.float?_isSome hzero)
    have hinit : Declares [.name c, .operator "=", ⟨.number, "0"⟩] [(c, some (.number .start x))] :=
      .last (.init c (.number hx))
    have hcondition : Spells 0 ([.name c, .operator "<"] ++ w)
        (.binary .start .lt (.var .start c) e) :=
      .binary .lt (Nat.zero_le _) (.var c) (htimes.spells rfl)
    have hupdate : AssignOp.add.stepSymbol? = some "++" := rfl
    have hloop := Writes.forLoop (.declare hinit) (.present hcondition)
      (.present (.step c hupdate)) hwrites .nil
    have hharmless (hquiet : t.Quiet) := harmless_countLoop hword htimes.harmless (hv hquiet)
    have hstands := stands_braced t.Quiet (mark_countHead hword htimes.inline).inline hlines
      (by simpa only [List.append_assoc, List.cons_append, List.nil_append] using hloop)
      (by simpa only [List.append_assoc, List.cons_append, List.nil_append] using hharmless)
      (scoped_countLoop (hscope.mono ((hpq.trans hqr).scope fun _ h => h))
        (hscoped.mono (hqr.scope fun _ h => h)))
    rw [hshape, ← hform]
    have hcounters : bodyCounters [.forLoop .start
        (some (.declare .start [(c, some (.number .start x))]))
        (some (.binary .start .lt (.var .start c) e))
        (some (.assign .start c .add (.number .start 1))) ss] = bodyCounters ss ++ [c] := by
      simp [bodyCounters, Statement.counters, declaredBy]
    rw [hcounters] at hstands
    exact hstands
  · rw [hnamed, hcounters, List.reverse_append]
    rfl

theorem stated_controlsRepeatExt (hs : s.Shows t) (htype : t.type = "controls_repeat_ext")
    (h : Served known answer t) (hp : p.Sound)
    (hvisited : ∀ socket, ∀ id ∈ t.inputIds socket, id ∉ p.visited) :
    ((controlsRepeatExt s).run answer).Ensures p (Stated known t p) := by
  rw [controlsRepeatExt]
  refine Emission.ensures_bind (h.asksValue "TIMES" (by decide) isLiteral_zero hp)
    fun times q htimes => ?_
  obtain ⟨hpq, w, e, hfits, hoperand⟩ := htimes
  have hvisited' : ∀ socket, ∀ id ∈ t.inputIds socket, id ∉ q.visited := by
    rw [hpq.visited]
    exact hvisited
  refine (stated_repeatLoop hs h (hpq.grows.sound hp) hvisited' hfits hoperand.inScope
    (by rw [htype]; rfl)).mono fun code r hcode => ?_
  refine ⟨fun id hid => ?_, hcode.wrote.after hpq.grows hpq.counters⟩
  rw [← hpq.visited]
  exact hcode.visited id hid

theorem stated_controlsRepeat (hs : s.Shows t) (htype : t.type = "controls_repeat")
    (h : Served known answer t) (hp : p.Sound)
    (hvisited : ∀ socket, ∀ id ∈ t.inputIds socket, id ∉ p.visited) :
    ((controlsRepeat s).run answer).Ensures p (Stated known t p) := by
  have hodd : ∀ x ∈ ((Number.float? (s.fieldOr "TIMES" "0")).bind Number.literalWord?).toList,
      t.Odd x := by
    rw [hs.fieldOr]
    intro x hx
    refine .self ?_
    rw [htype]
    exact hx
  rw [controlsRepeat]
  cases hread : Number.float? (s.fieldOr "TIMES" "0") with
  | none =>
    obtain ⟨w, hw⟩ := isLiteral_zero.spelt
    exact stated_repeatLoop hs h hp hvisited (hw.fits (by decide)) (isLiteral_zero.names.inScope nofun)
      (by rw [htype]; rfl)
  | some x =>
    rw [hread] at hodd
    obtain ⟨⟨w, hw⟩, hnames⟩ := says_number x (show Order.atomic ∈ Order.expressions by decide) rfl
    exact stated_repeatLoop hs h hp hvisited (hw.fits (by decide))
      (hnames.inScope fun y hy => .inr (hodd y hy)) (by rw [htype]; rfl)

/-- A loop under a condition, however the condition is put. -/
theorem stated_whileLoop (hs : s.Shows t) (htype : t.type = "controls_whileUntil")
    (h : Served known answer t) (hp : p.Sound)
    (hvisited : ∀ socket, ∀ id ∈ t.inputIds socket, id ∉ p.visited)
    {condition : Emission String}
    (hcondition : (condition.run answer).Ensures p fun code q =>
      p.Moves q ∧ ∃ w e, Inline code w ∧ Harmless w ∧ Spells 0 w e ∧ e.InScope (q.scope t.Odd)) :
    ((do
      let condition ← condition
      let body ← s.indentedBody "DO"
      return braced ("while (" ++ condition ++ ")") body ++ "\n" : Emission String).run
        answer).Ensures p (Stated known t p) := by
  refine Emission.ensures_bind hcondition fun code q hcode => ?_
  obtain ⟨hpq, w, e, hinline, hharmless, hspells, hscope⟩ := hcode
  have hentered' : ∀ id ∈ t.inputIds "DO", id ∉ q.visited := by
    rw [hpq.visited]
    exact hvisited "DO"
  refine Emission.ensures_bind (h.asksIndentedBody hs "DO" (hpq.grows.sound hp) hentered')
    fun body r hbody => ?_
  obtain ⟨hentered, hqr, cs, ⟨v, ss, hlines, hwrites, hform, hv, hscoped, rfl⟩, hcounters⟩ := hbody
  refine Emission.ensures_pure ⟨fun id hid => ?_, hpq.grows.trans hqr, bodyCounters ss, ?_, ?_⟩
  · rw [← hpq.visited]
    exact (hentered id hid).imp_right fun hid => ⟨"DO", hid⟩
  · have hwhile : Mark "while (" [.keyword "while", .leftParen] :=
      ⟨fun rest => .token rfl (.skip rfl (.token rfl (.refl rest))), by decide⟩
    have hhead := (hwhile.append_inline hinline).append mark_rightParen startsApart_rightParen
    have hloop := Writes.whileLoop hspells hwrites .nil
    have hquiet (hquiet : t.Quiet) : Harmless (.keyword "while" :: .leftParen ::
        (w ++ .rightParen :: .leftBrace :: (v ++ [.rightBrace]))) :=
      .cons nofun (.cons nofun (hharmless.append (.cons nofun (.cons nofun
        ((hv hquiet).append (.cons nofun .nil))))))
    have hstands := stands_braced t.Quiet hhead.inline hlines
      (by simpa only [List.append_assoc, List.cons_append, List.nil_append] using hloop)
      (by simpa only [List.append_assoc, List.cons_append, List.nil_append] using hquiet)
      (.whileLoop (hscope.mono (hqr.scope fun _ h => h)) hscoped (.nil _))
    have hshape : shape t.type t.mutation (inputOutlines known t.inputs) =
        [.whileLoop (t.bodyOutlines known "DO")] := by rw [htype]; rfl
    have hcounters : bodyCounters [.whileLoop .start e ss] = bodyCounters ss :=
      List.append_nil _
    rw [hshape, ← hform]
    rw [hcounters] at hstands
    exact hstands
  · rw [hcounters, hpq.counters]

theorem stated_controlsWhileUntil (hs : s.Shows t) (htype : t.type = "controls_whileUntil")
    (h : Served known answer t) (hp : p.Sound)
    (hvisited : ∀ socket, ∀ id ∈ t.inputIds socket, id ∉ p.visited) :
    ((controlsWhileUntil s).run answer).Ensures p (Stated known t p) := by
  rw [controlsWhileUntil]
  split
  · refine stated_whileLoop hs htype h hp hvisited (Emission.ensures_map ?_)
    refine (h.asksValue "BOOL" (by decide) isLiteral_false hp).mono fun code q hcode => ?_
    obtain ⟨hpq, w, e, hfits, hoperand⟩ := hcode
    have hnegated := hfits.negated
    exact ⟨hpq, _, _, hnegated.inline, hnegated.harmless, hnegated.spells.mono (Nat.zero_le _),
      hoperand.inScope.unary .not⟩
  · refine stated_whileLoop hs htype h hp hvisited ?_
    refine (h.asksValue "BOOL" (by decide) isLiteral_false hp).mono fun code q hcode => ?_
    obtain ⟨hpq, w, e, hfits, hoperand⟩ := hcode
    exact ⟨hpq, w, e, hfits.inline, hfits.harmless, hfits.spells rfl, hoperand.inScope⟩

end Standard
end Generation
end VisualBlocks

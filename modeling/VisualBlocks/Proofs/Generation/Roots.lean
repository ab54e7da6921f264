import VisualBlocks.Proofs.Generation.Trees
import VisualBlocks.Proofs.Script.StatementReading

/-!
# The text of a forest

A generated program is put together from the texts of the top-level blocks: those that have any text
stand one after the other with a blank line between them, the variables are declared in front, and
the whole is tidied.  **The text of a forest is a program of the form of the forest**
(`code_stands`).
-/

set_option autoImplicit false

namespace VisualBlocks
namespace Generation

open Script BlockTree

variable {v : Vocabulary} {registry : Registry} {graph : Graph} {t : BlockTree} {p : Pass}

/-! ## One top-level block -/

/-- A top-level block with a rule for values is a statement, and the chain goes on below it. -/
theorem root_of_value {g : Generator} {id : String} {emit : Site → Emission (String × Order)}
    (hrule : g.rules.get? (g.site graph id).node.type = some (.value emit)) :
    g.root graph id = (do
      return (← (fun e => asStatement e.1) <$> g.expression graph (Generator.levels graph) id "null") ++
        (← g.chain graph (Generator.levels graph) (g.site graph id).node.next)) := by
  rw [Generator.root, hrule]
  simp only [map_eq_pure_bind, bind_assoc, pure_bind]

theorem root_of_other {g : Generator} {id : String}
    (hrule : ∀ emit, g.rules.get? (g.site graph id).node.type ≠ some (.value emit)) :
    g.root graph id = g.chain graph (Generator.levels graph) (some id) := by
  rw [Generator.root]
  split
  · next emit h => exact absurd h (hrule emit)
  · rfl

/-- **A top-level tree becomes statements of its form.** -/
theorem root_chained (hdefaults : LiteralDefaults registry) (h : Walkable v registry graph t)
    (hp : p.Sound) (hfresh : ∀ id ∈ t.ids, id ∉ p.visited) :
    ((v.generator registry).root graph t.id).Ensures p (Chained v registry t p) := by
  have hwalks : Walks v registry graph (Generator.levels graph) := walks hdefaults _
  have hlevels := length_le_levels h.held h.nodup
  have hnode := site_node h.held (v.generator registry)
  by_cases hvalue : ∃ emit, (v.generator registry).rules.get? t.type = some (.value emit)
  · obtain ⟨emit, hrule⟩ := hvalue
    have hown : ((fun e => asStatement e.1) <$> (v.generator registry).expression graph
        (Generator.levels graph) t.id "null").Ensures p (Entered v registry t p) := by
      refine .map ((hwalks.expression h hlevels isLiteral_null hp).mono fun result q hresult => ?_)
      obtain ⟨hpq, w, e, he, hscope, -⟩ := hresult
      refine ⟨fun id hid => .inl (hpq.visited ▸ hid), ?_⟩
      have hright := rule_right (v.generator registry).knows v registry hrule
      rw [ownOutlines, shape_of_value hright.1, Generator.knows, Table.contains, hrule]
      exact .of_moves hpq (stands_asStatement he hscope t.Quiet)
    have hnext := chain_next hwalks h (Nat.le_succ_of_le hlevels) hown hp fun id hid =>
      hfresh id (nextIds_subset t id hid)
    rw [← site_type h.held (v.generator registry)] at hrule
    rw [root_of_value hrule, hnode]
    refine hnext.mono fun code q hcode => ⟨fun id hid => ?_, hcode.2⟩
    rcases hcode.1 id hid with hid | ⟨socket, hid⟩ | hid
    · exact .inl hid
    · exact .inr (t.inputIds_subset socket id hid)
    · exact .inr (nextIds_subset t id hid)
  · rw [root_of_other fun emit hrule => hvalue ⟨emit, by rwa [site_type h.held] at hrule⟩]
    exact hwalks.chain h hlevels hp hfresh

/-! ## All top-level blocks -/

/-- The texts of the trees, one after the other. -/
def Paragraphs (v : Vocabulary) (registry : Registry) (forest : List BlockTree) (p : Pass)
    (chunks : List String) (q : Pass) : Prop :=
  Threaded (fun t code p q => Wrote t.licence (t.outlines (v.generator registry).knows) p code q)
    forest chunks p q

theorem roots_paragraphs (hdefaults : LiteralDefaults registry) {forest : List BlockTree}
    (hforest : ∀ t ∈ forest, Walkable v registry graph t)
    (hnodup : (forest.flatMap BlockTree.ids).Nodup) (hp : p.Sound)
    (hfresh : ∀ id ∈ forest.flatMap BlockTree.ids, id ∉ p.visited) :
    ((forest.map BlockTree.id).mapM ((v.generator registry).root graph)).Ensures p
      (Paragraphs v registry forest p) := by
  induction forest generalizing p with
  | nil => exact .pure (.nil p)
  | cons t ts ih =>
    rw [List.forall_mem_cons] at hforest
    rw [List.flatMap_cons] at hnodup hfresh
    obtain ⟨-, hrest, hapart⟩ := List.nodup_append.1 hnodup
    rw [List.map_cons, List.mapM_cons]
    refine (root_chained hdefaults hforest.1 hp fun id hid =>
      hfresh id (List.mem_append_left _ hid)).bind fun code q hcode => ?_
    have hfresh' : ∀ id ∈ ts.flatMap BlockTree.ids, id ∉ q.visited := by
      intro id hid hentered
      rcases hcode.visited id hentered with hold | hown
      · exact hfresh id (List.mem_append_right _ hid) hold
      · exact hapart id hown id hid rfl
    refine (ih hforest.2 hrest (hcode.wrote.grows.sound hp) hfresh').bind fun codes r hcodes => ?_
    exact .pure (.cons hcode.wrote hcodes)

/-! ## The body of the program -/

/-- **The paragraphs that have any text are the statements of all of them.** -/
theorem wrote_body {L : Licence} {form : BlockTree → List Outline} {forest : List BlockTree}
    {chunks : List String} {q : Pass}
    (h : Threaded (fun t code p q => Wrote L (form t) p code q) forest chunks p q) :
    Wrote L (forest.flatMap form) p
      (String.intercalate "\n" (chunks.filter fun c => !c.isEmpty)) q := by
  induction h with
  | nil p => exact .nil L p
  | @cons t code forest chunks p q r hcode _ ih =>
    rw [List.flatMap_cons]
    by_cases hempty : code = ""
    · subst hempty
      have hwhole := hcode.append ih
      rwa [String.empty_append] at hwhole
    · have hkeeps : (!code.isEmpty) = true := by
        rw [Bool.not_eq_true', Bool.eq_false_iff]
        exact fun h => hempty (String.isEmpty_iff.1 h)
      rw [List.filter_cons_of_pos (p := fun c : String => !c.isEmpty) hkeeps]
      cases hfilled : chunks.filter fun c => !c.isEmpty with
      | nil =>
        rw [hfilled, String.intercalate_nil] at ih
        have hwhole := hcode.append ih
        rwa [String.append_empty] at hwhole
      | cons next rest =>
        rw [hfilled] at ih
        have hgap : Wrote L [] q "\n" q := .of_moves (.refl q) (.comment .lineBreak _ _)
        have hwhole := (hcode.append hgap).append ih
        rwa [List.append_nil, ← String.intercalate_cons_cons] at hwhole

/-! ## The declaration -/

/-- The name of a variable as an argument. -/
def nameArgument (name : String) : Argument := ⟨name, [.name name], .var .start name⟩

theorem right_nameArgument {name : String} (h : ScriptName name) : (nameArgument name).Right :=
  ⟨h.inline, .name h.not_capability .nil, .var name, rfl⟩

theorem declares_names (name : String) (names : List String) :
    Declares (separated ((name :: names).map fun n => [Lexeme.name n]))
      ((name :: names).map fun n => (n, none)) := by
  induction names generalizing name with
  | nil => exact .last (.bare name)
  | cons n names ih => exact .more (.bare name) (ih n)

/-- The form of the declaration of some variables. -/
def declared (names : List String) : List Outline := if names = [] then [] else [.declare]

theorem Lines.declaration {g : Generator} (hdeclares : g.declareVariables = true) {name : String}
    {names : List String} (hnames : ∀ n ∈ name :: names, ScriptName n) :
    Lines (g.declaration (name :: names))
      (.keyword "var" :: (separated ((name :: names).map fun n => [Lexeme.name n]) ++
        [.semicolon])) := by
  have hright : ∀ x ∈ (name :: names).map nameArgument, x.Right := by
    intro x hx
    obtain ⟨n, hn, rfl⟩ := List.mem_map.1 hx
    exact right_nameArgument (hnames n hn)
  have hvar : Mark "var " [.keyword "var"] :=
    ⟨fun rest => .token rfl (.skip rfl (.refl rest)), by decide⟩
  have hline := hvar.append (mark_listed hright mark_semicolon startsApart_semicolon)
  have hcode : g.declaration (name :: names) =
      "var " ++ (String.intercalate ", " (((name :: names).map nameArgument).map Argument.code) ++
        ";") ++ "\n" ++ "\n" := by
    have hnone : ((name :: names).isEmpty || !g.declareVariables) = false := by
      rw [hdeclares]
      rfl
    have hcodes : ((name :: names).map nameArgument).map Argument.code = name :: names := by
      rw [List.map_map]
      exact List.map_id _
    have hend : (";\n\n" : String) = ";" ++ "\n" ++ "\n" := rfl
    rw [Generator.declaration, hnone, if_neg Bool.false_ne_true, hcodes, hend]
    simp only [String.append_assoc]
  have hlines := ((Unfinished.ofMark hline).ended solid_semicolon.append.append).append .lineBreak
  have htexts : ((name :: names).map nameArgument).map Argument.text =
      (name :: names).map fun n => [Lexeme.name n] := List.map_map
  rw [List.append_nil, htexts] at hlines
  rw [hcode]
  exact hlines

/-- **The variables are declared where there are any**, in front of the text that names them. -/
theorem Stands.declared {g : Generator} (hdeclares : g.declareVariables = true)
    {names : List String} (hnames : ∀ n ∈ names, ScriptName n) {code : String} {form : List Outline}
    {quiet : Prop} {S : Scope} {counters : List String}
    (h : Stands code form quiet (S.extend names) counters) :
    Stands (g.declaration names ++ code) (declared names ++ form) quiet S counters := by
  cases names with
  | nil =>
    have hwithin : (S.extend []).Within S :=
      ⟨fun _ h => h.resolve_right List.not_mem_nil, fun _ h => h⟩
    have hnone : g.declaration [] = "" := rfl
    rw [hnone, String.empty_append]
    exact h.mono (fun h => h) hwithin
  | cons name names =>
    obtain ⟨w, ss, hlines, hwrites, hform, hw, hscoped, hcounters⟩ := h
    have hdeclared := Lines.declaration hdeclares hnames
    have hnamed : Harmless (separated ((name :: names).map fun n => [Lexeme.name n])) := by
      have hright : ∀ x ∈ (name :: names).map nameArgument, x.Right := by
        intro x hx
        obtain ⟨n, hn, rfl⟩ := List.mem_map.1 hx
        exact right_nameArgument (hnames n hn)
      have hall := harmless_arguments hright
      rwa [List.map_map] at hall
    have hend : Harmless [Lexeme.semicolon] := .cons nofun .nil
    refine ⟨_, .declare .start ((name :: names).map fun n => (n, none)) :: ss,
      hdeclared.append hlines, ?_, ?_, fun hquiet => ?_, .declare ?_ ?_, hcounters⟩
    · rw [List.cons_append, List.append_assoc, List.singleton_append]
      exact .declare (declares_names name names) hwrites
    · rw [Script.outlines, hform]
      rfl
    · exact .cons nofun ((hnamed.append hend).append (hw hquiet))
    · intro d hd e he
      obtain ⟨n, -, rfl⟩ := List.mem_map.1 hd
      cases he
    · rw [List.map_map]
      exact (List.map_id (name :: names)).symm ▸ hscoped

/-! ## The whole program -/

theorem Stands.tidy {code : String} {form : List Outline} {quiet : Prop} {S : Scope}
    {counters : List String} (h : Stands code form quiet S counters) :
    Stands (Text.tidy code) form quiet S counters := by
  obtain ⟨w, ss, hlines, hrest⟩ := h
  exact ⟨w, ss, hlines.tidy, hrest⟩

/-- **The text of a forest is a program of the form of the forest.**  It names nothing that it does
not declare but what the licence of the forest allows, and its loops have the counters that the pass
has named. -/
theorem code_stands (hdefaults : LiteralDefaults registry) {forest : List BlockTree}
    (hroots : forest.map BlockTree.id = graph.top)
    (hforest : ∀ t ∈ forest, Walkable v registry graph t)
    (hnodup : (forest.flatMap BlockTree.ids).Nodup) :
    ∃ chunks pass,
      graph.top.mapM ((v.generator registry).root graph) .start = some (chunks, pass) ∧
        Stands ((v.generator registry).graphCode graph)
          (declared pass.names ++ forest.flatMap fun t => t.outlines (v.generator registry).knows)
          (forestLicence forest).quiet (outerScope (forestLicence forest).odd)
          pass.counters.reverse := by
  obtain ⟨chunks, pass, hrun, hparagraphs⟩ :=
    roots_paragraphs hdefaults hforest hnodup Pass.sound_start nofun
  rw [hroots] at hrun
  refine ⟨chunks, pass, hrun, ?_⟩
  have hcode : (v.generator registry).graphCode graph =
      Text.tidy ((v.generator registry).declaration pass.names ++
        String.intercalate "\n" (chunks.filter fun c => !c.isEmpty)) := by
    rw [Generator.graphCode, Generator.generate, StateT.run, hrun]
    rfl
  obtain ⟨hgrows, counters, hstands, hcounters⟩ :=
    wrote_body (hparagraphs.mono fun t ht _ _ _ hcode => hcode.mono (licence_within_forest ht))
  have hnames : ∀ n ∈ pass.names, ScriptName n := by
    intro n hn
    obtain ⟨entry, hentry, rfl⟩ := List.mem_map.1 hn
    exact (hgrows.sound Pass.sound_start).words entry hentry
  have hreverse : counters = pass.counters.reverse := by
    rw [hcounters, Pass.start, List.append_nil, List.reverse_reverse]
  rw [hcode, ← hreverse]
  exact ((hstands.mono (fun h => h) (pass.scope_within _)).declared (by cases v <;> rfl) hnames).tidy

/-- **What stands as statements is parsed as statements.** -/
theorem Stands.parses {code : String} {form : List Outline} {quiet : Prop} {S : Scope}
    {counters : List String} (h : Stands code form quiet S counters) :
    ∃ program w, parseProgram code = .ok program ∧ Writes w (stripStatements program.body) ∧
      Script.outlines program.body = form ∧ (quiet → Harmless w) ∧ Scoped S program.body ∧
        bodyCounters program.body = counters := by
  obtain ⟨w, ss, hlines, hwrites, hform, hw, hscoped, hcounters⟩ := h
  obtain ⟨ts, stop, hts, htokens⟩ := hlines.tokenize
  obtain ⟨program, hparsed, hstrip⟩ := parseTokens_of_writes hwrites hts stop
  refine ⟨program, w, ?_, hstrip ▸ hwrites, ?_, hw, hscoped.of_strip hstrip, ?_⟩
  · rw [parseProgram, htokens]
    exact hparsed
  · rw [← outlines_strip, hstrip, hform]
  · rw [← bodyCounters_strip, hstrip, hcounters]

end Generation
end VisualBlocks

import VisualBlocks.Proofs.Generation.Rules

/-!
# Trees of blocks become text

The walk over a graph, on a tree that the graph holds.  The levels of recursion that the generator
allows itself are enough, because a tree has no more blocks than the graph has nodes and every step
of the walk goes to a part of the tree.  So **a tree always has a text**, and it is the text that it
should be:

* the expression of the tree, at the place of a value (`Walks.expression`);
* statements of the form of the tree, at the place of a chain (`Walks.chain`).

Both are proved together, by induction on the levels; the requests of the rules are answered by
what is known of the parts (`served`).
-/

set_option autoImplicit false

namespace VisualBlocks
namespace Generation

open Script BlockTree

variable {v : Vocabulary} {registry : Registry} {graph : Graph} {t : BlockTree} {p : Pass}

/-- Has the generator a rule for the type? -/
def Generator.knows (g : Generator) (type : String) : Bool := g.rules.contains type

/-- Is every text of the tree that goes into a comment as it is on one line?  These are the type and
the identifier of a block that no rule knows. -/
def OneLine (known : String → Bool) (t : BlockTree) : Prop :=
  ∀ b ∈ t.blocks, known b.2.type = false → '\n' ∉ b.2.type.toList ∧ '\n' ∉ b.1.toList

theorem OneLine.part {known : String → Bool} {c : BlockTree} (h : OneLine known t)
    (hc : c.IsPart t) : OneLine known c := fun b hb => h b (hc.subset b hb)

theorem generator_language (v : Vocabulary) (registry : Registry) :
    (v.generator registry).language = scriptLanguage := by
  cases v <;> rfl

theorem site_node (hheld : graph.Holds t) (g : Generator) : (g.site graph t.id).node = t.node := by
  rw [Generator.site, hheld.node?]
  rfl

theorem site_type (hheld : graph.Holds t) (g : Generator) :
    (g.site graph t.id).node.type = t.type := by
  rw [site_node hheld]
  rfl

theorem site_shows (hdefaults : LiteralDefaults registry) (hheld : graph.Holds t) :
    ((v.generator registry).site graph t.id).Shows t :=
  ⟨site_node hheld _, generator_language v registry, by cases v <;> rfl,
    by cases v <;> exact hdefaults⟩

/-- The generator allows itself enough levels. -/
theorem length_le_levels (hheld : graph.Holds t) (hnodup : t.ids.Nodup) :
    t.blocks.length ≤ Generator.levels graph :=
  calc t.blocks.length ≤ graph.nodes.length := hheld.length_le hnodup
    _ ≤ graph.nodes.length + 2 := Nat.le_add_right _ _
    _ ≤ Generator.levels graph := Nat.le_self_pow (by decide) _

/-- A tree that the walk can turn into text. -/
structure Walkable (v : Vocabulary) (registry : Registry) (graph : Graph) (t : BlockTree) :
    Prop where
  held : graph.Holds t
  nodup : t.ids.Nodup
  oneLine : OneLine (v.generator registry).knows t

theorem Walkable.part {c : BlockTree} (h : Walkable v registry graph t) (hc : c.IsPart t) :
    Walkable v registry graph c := ⟨h.held.part hc, hc.nodup h.nodup, h.oneLine.part hc⟩

/-- What the walk gives for a chain: lines of the form of the tree, and it enters no other blocks. -/
structure Chained (v : Vocabulary) (registry : Registry) (t : BlockTree) (p : Pass)
    (code : String) (q : Pass) : Prop where
  visited : ∀ id ∈ q.visited, id ∈ p.visited ∨ id ∈ t.ids
  wrote : Wrote t.licence (t.outlines (v.generator registry).knows) p code q

/-- The walk turns trees with at most so many blocks into text. -/
structure Walks (v : Vocabulary) (registry : Registry) (graph : Graph) (levels : Nat) : Prop where
  expression {t : BlockTree} (h : Walkable v registry graph t) (hlevels : t.blocks.length ≤ levels)
    {default : String} (hdefault : IsLiteral default) {p : Pass} (hp : p.Sound) :
    ((v.generator registry).expression graph levels t.id default).Ensures p (Valued t p)
  chain {t : BlockTree} (h : Walkable v registry graph t) (hlevels : t.blocks.length ≤ levels)
    {p : Pass} (hp : p.Sound) (hfresh : ∀ id ∈ t.ids, id ∉ p.visited) :
    ((v.generator registry).chain graph levels (some t.id)).Ensures p (Chained v registry t p)

theorem chain_none (g : Generator) (levels : Nat) : g.chain graph levels none = pure "" := by
  rw [Generator.chain.eq_def]

/-- **The requests of a rule are answered by what is known of the parts.** -/
theorem served {levels : Nat} (hwalks : Walks v registry graph levels)
    (h : Walkable v registry graph t) (hlevels : t.blocks.length ≤ levels + 1) :
    Served (v.generator registry).knows
      ((v.generator registry).answer ((v.generator registry).expression graph levels)
        ((v.generator registry).chain graph levels) t.node) t where
  value socket {outer default p} houter hdefault hp := by
    rw [Generator.answer, node_input?]
    cases hinput : t.input? socket with
    | none =>
      obtain ⟨w, hw⟩ := hdefault.spelt
      refine .pure ⟨.refl p, w, _, hw.fits outer.demand_le, hdefault.names.inScope nofun,
        fun _ q _ => ?_⟩
      dsimp only
      rw [operandIn_empty hinput]
      exact .refl _
    | some c =>
      have hpart := isPart_input hinput
      have hlength := hpart.length_lt
      refine (hwalks.expression (h.part hpart) (by omega) hdefault hp).bind fun result q hresult => ?_
      obtain ⟨hpq, w, e, he, hscope, hmeaning⟩ := hresult
      obtain ⟨w', hw'⟩ := he.enclose houter
      have hwithin : (q.scope c.Odd).Within (q.scope t.Odd) :=
        (Pass.Grows.refl q).scope fun _ h => h.part hpart
      rw [generator_language]
      refine .pure ⟨hpq, w', e, hw', hscope.mono hwithin, fun ht r hqr => ?_⟩
      dsimp only
      rw [operandIn_filled hinput]
      exact hmeaning (ht.part hpart) r hqr
  body socket {p} hp hvisited := by
    rw [Generator.answer, node_input?, bodyOutlines_eq]
    rw [inputIds] at hvisited ⊢
    cases hinput : t.input? socket with
    | none =>
      rw [Option.map_none, chain_none]
      exact .pure ⟨fun id hid => .inl hid, .nil _ p⟩
    | some c =>
      have hpart := isPart_input hinput
      have hlength := hpart.length_lt
      rw [hinput] at hvisited
      refine (hwalks.chain (h.part hpart) (by omega) hp hvisited).mono fun code q hcode => ?_
      exact ⟨hcode.visited, hcode.wrote.mono hpart.licence⟩
  variableName raw {p} hp := by
    rw [Generator.answer, generator_language]
    exact .naming ⟨⟨p.variableName_grows raw, p.variableName_visited scriptLanguage raw,
      p.variableName_counters scriptLanguage raw⟩,
      p.scriptName_variableName hp raw, p.variableName_known scriptLanguage raw⟩
  freshName base p := by
    rw [Generator.answer, generator_language]
    exact .naming ⟨p.freshName_grows base, rfl, rfl, p.scriptName_freshName base⟩

/-! ## One block -/

/-- What stands for a block that no rule can turn into an expression is the default. -/
theorem valued_unsupported {type default : String} (hline : '\n' ∉ type.toList)
    (hdefault : IsLiteral default) (hstandard : ¬ t.Standard) :
    Valued t p (scriptLanguage.unsupportedValue type default, .atomic) p := by
  have htext : '\n' ∉ ("Unsupported block type: " ++ type).toList :=
    lineBreak_not_mem_append (by decide) hline
  obtain ⟨w, hw⟩ := says_commented htext hdefault
  exact ⟨.refl p, w, _, hw, hdefault.names.inScope nofun, fun ht => absurd ht hstandard⟩

/-- What stands for a block that no rule can turn into a statement is nothing. -/
theorem stands_unsupported {type id : String} (htype : '\n' ∉ type.toList)
    (hid : '\n' ∉ id.toList) (quiet : Prop) (S : Scope) :
    Stands (scriptLanguage.unsupportedStatement type id) [] quiet S [] := by
  refine stands_lineComment ?_ (Solid.append ⟨')', by decide, by decide⟩) quiet S
  exact lineBreak_not_mem_append (lineBreak_not_mem_append (lineBreak_not_mem_append
    (lineBreak_not_mem_append (by decide) htype) (by decide)) hid) (by decide)

theorem expression_step {levels : Nat} (hdefaults : LiteralDefaults registry)
    (hwalks : Walks v registry graph levels) (h : Walkable v registry graph t)
    (hlevels : t.blocks.length ≤ levels + 1) {default : String} (hdefault : IsLiteral default)
    (hp : p.Sound) :
    ((v.generator registry).expression graph (levels + 1) t.id default).Ensures p (Valued t p) := by
  have hsite := site_shows (v := v) hdefaults h.held
  rw [Generator.expression, site_type h.held, hsite.node]
  split
  · next emit hrule =>
    exact (rule_right _ v registry hrule).2 hsite rfl (served hwalks h hlevels) hp
  · next hnone =>
    rw [generator_language]
    refine .pure (valued_unsupported ?_ hdefault fun ht => ?_)
    · cases hrule : (v.generator registry).rules.get? t.type with
      | none =>
        refine (h.oneLine _ t.self_mem_blocks ?_).1
        exact Option.isSome_eq_false_iff.2 (Option.isNone_iff_eq_none.2 hrule)
      | some rule => exact oneLine_of_rule v registry hrule
    · obtain ⟨emit, hrule⟩ := rule_of_valueTypes v registry ht.type_mem
      exact hnone emit hrule

/-- The text of the first block of a chain. -/
def ownText (g : Generator) (graph : Graph) (levels : Nat) (id : String) : Walk String :=
  let site := g.site graph id
  let answer := g.answer (g.expression graph levels) (g.chain graph levels) site.node
  match g.rules.get? site.node.type with
  | some (.statement emit) => closeLine <$> (emit site).run answer
  | some (.value emit) => (fun e => asStatement e.1) <$> (emit site).run answer
  | none => pure (g.language.unsupportedStatement site.node.type id)

/-- A chain is its first block, which it has reached now, and what follows. -/
theorem chain_fresh (g : Generator) (levels : Nat) {id : String} (hfresh : id ∉ p.visited) :
    g.chain graph (levels + 1) (some id) p =
      (do
        let code ← ownText g graph levels id
        return code ++ (← g.chain graph levels (g.site graph id).node.next) : Walk String)
        (p.visit id) := by
  rw [Generator.chain]
  have hmodify {α : Type} (f : Pass → Pass) (k : PUnit → Walk α) :
      ((modify f : Walk PUnit) >>= k) p = k ⟨⟩ (f p) := rfl
  rw [Walk.get_bind, if_neg (mt List.contains_iff_mem.1 hfresh), hmodify, ownText]
  cases g.rules.get? (g.site graph id).node.type with
  | none => rfl
  | some rule => cases rule <;> rfl

/-- A chain that comes back to a block writes a warning and stops. -/
theorem chain_again (g : Generator) (levels : Nat) {id : String} (hvisited : id ∈ p.visited) :
    g.chain graph (levels + 1) (some id) p = some (g.language.cycleWarning id, p) := by
  rw [Generator.chain, Walk.get_bind, if_pos (List.contains_iff_mem.2 hvisited)]
  rfl

/-- What the first block of a chain gives. -/
structure Entered (v : Vocabulary) (registry : Registry) (t : BlockTree) (p : Pass)
    (code : String) (q : Pass) : Prop where
  visited : ∀ id ∈ q.visited, id ∈ p.visited ∨ ∃ socket, id ∈ t.inputIds socket
  wrote : Wrote t.licence (t.ownOutlines (v.generator registry).knows) p code q

theorem ownText_step {levels : Nat} (hdefaults : LiteralDefaults registry)
    (hwalks : Walks v registry graph levels) (h : Walkable v registry graph t)
    (hlevels : t.blocks.length ≤ levels + 1) (hp : p.Sound)
    (hvisited : ∀ socket, ∀ id ∈ t.inputIds socket, id ∉ p.visited) :
    (ownText (v.generator registry) graph levels t.id).Ensures p (Entered v registry t p) := by
  have hsite := site_shows (v := v) hdefaults h.held
  rw [ownText, site_type h.held, hsite.node]
  cases hrule : (v.generator registry).rules.get? t.type with
  | none =>
    have hunknown : (v.generator registry).knows t.type = false :=
      Option.isSome_eq_false_iff.2 (Option.isNone_iff_eq_none.2 hrule)
    obtain ⟨hline, hid⟩ := h.oneLine _ t.self_mem_blocks hunknown
    rw [generator_language]
    refine .pure ⟨fun id hid => .inl hid, ?_⟩
    rw [ownOutlines, hunknown, if_neg Bool.false_ne_true]
    exact .of_moves (.refl p) (stands_unsupported hline hid t.Quiet _)
  | some rule =>
    have hknown : (v.generator registry).knows t.type = true :=
      Option.isSome_of_eq_some hrule
    have hown : t.ownOutlines (v.generator registry).knows =
        shape t.type t.mutation (inputOutlines (v.generator registry).knows t.inputs) := by
      rw [ownOutlines, hknown, if_pos rfl]
    have hserved := served hwalks h hlevels
    cases rule with
    | statement emit =>
      refine .map (((rule_right _ v registry hrule).2 hsite rfl hserved hp h.nodup hvisited).mono
        fun code q hcode => ?_)
      refine ⟨hcode.visited, ?_⟩
      rw [hown]
      exact hcode.wrote
    | value emit =>
      obtain ⟨hvalue, hright⟩ := rule_right (v.generator registry).knows v registry hrule
      refine .map ((hright hsite rfl hserved hp).mono fun result q hresult => ?_)
      obtain ⟨hpq, w, e, he, hscope, -⟩ := hresult
      refine ⟨fun id hid => .inl (hpq.visited ▸ hid), ?_⟩
      rw [hown, shape_of_value hvalue]
      exact .of_moves hpq (stands_asStatement he hscope t.Quiet)

/-! ## Chains -/

/-- What follows a block, after the block. -/
theorem chain_next {levels : Nat} (hwalks : Walks v registry graph levels)
    (h : Walkable v registry graph t) (hlevels : t.blocks.length ≤ levels + 1) {own : Walk String}
    (hown : own.Ensures p (Entered v registry t p)) (hp : p.Sound)
    (hfresh : ∀ id ∈ t.nextIds, id ∉ p.visited) :
    ((do return (← own) ++ (← (v.generator registry).chain graph levels (t.next.map BlockTree.id))) :
      Walk String).Ensures p fun code q =>
        (∀ id ∈ q.visited, id ∈ p.visited ∨ (∃ socket, id ∈ t.inputIds socket) ∨ id ∈ t.nextIds) ∧
          Wrote t.licence (t.outlines (v.generator registry).knows) p code q := by
  refine hown.bind fun code q hcode => ?_
  rw [nextIds] at hfresh ⊢
  rw [outlines_eq]
  cases hnext : t.next with
  | none =>
    rw [Option.map_none, chain_none, pure_bind, nextOutlines, List.append_nil, String.append_empty]
    refine .pure ⟨fun id hid => ?_, hcode.wrote⟩
    exact (hcode.visited id hid).imp_right .inl
  | some n =>
    have hpart := isPart_next hnext
    have hlength := hpart.length_lt
    rw [hnext] at hfresh
    have hfresh' : ∀ id ∈ n.ids, id ∉ q.visited := by
      intro id hid hentered
      rcases hcode.visited id hentered with hold | ⟨socket, hinput⟩
      · exact hfresh id hid hold
      · refine disjoint_nextIds h.nodup socket id hinput ?_
        rw [nextIds, hnext]
        exact hid
    refine (hwalks.chain (h.part hpart) (by omega) (hcode.wrote.grows.sound hp) hfresh').bind
      fun rest r hrest => .pure ⟨fun id hid => ?_, hcode.wrote.append (hrest.wrote.mono hpart.licence)⟩
    · rcases hrest.visited id hid with hid | hid
      · exact (hcode.visited id hid).imp_right .inl
      · exact .inr (.inr hid)

theorem nextIds_subset (t : BlockTree) : ∀ id ∈ t.nextIds, id ∈ t.ids := by
  intro id hid
  rw [nextIds] at hid
  split at hid
  · cases hid
  · next h => exact (isPart_next h).ids_subset id hid

theorem id_not_mem_inputIds (h : t.ids.Nodup) (socket : String) : t.id ∉ t.inputIds socket := by
  rw [inputIds]
  split
  · exact List.not_mem_nil
  · next hinput => exact (isPart_input hinput).id_not_mem h

theorem id_not_mem_nextIds (h : t.ids.Nodup) : t.id ∉ t.nextIds := by
  rw [nextIds]
  split
  · exact List.not_mem_nil
  · next hnext => exact (isPart_next hnext).id_not_mem h

/-- Entering a block enters no other one. -/
theorem not_mem_visit {id : String} {ids : List String} (hid : id ∉ ids)
    (hfresh : ∀ x ∈ ids, x ∉ p.visited) : ∀ x ∈ ids, x ∉ (p.visit id).visited := by
  intro x hx hentered
  rcases List.mem_cons.1 hentered with rfl | hold
  · exact hid hx
  · exact hfresh x hx hold

theorem chain_step {levels : Nat} (hdefaults : LiteralDefaults registry)
    (hwalks : Walks v registry graph levels) (h : Walkable v registry graph t)
    (hlevels : t.blocks.length ≤ levels + 1) (hp : p.Sound) (hfresh : ∀ id ∈ t.ids, id ∉ p.visited) :
    ((v.generator registry).chain graph (levels + 1) (some t.id)).Ensures p
      (Chained v registry t p) := by
  have hvisit : p.Grows (p.visit t.id) := .of_known rfl
  have hown := ownText_step hdefaults hwalks h hlevels (hvisit.sound hp) fun socket =>
    not_mem_visit (id_not_mem_inputIds h.nodup socket) fun id hid =>
      hfresh id (t.inputIds_subset socket id hid)
  have hfollowing := not_mem_visit (id_not_mem_nextIds h.nodup) fun id hid =>
    hfresh id (nextIds_subset t id hid)
  have hnode : ((v.generator registry).site graph t.id).node.next =
      t.next.map BlockTree.id := by
    rw [site_node h.held]
    rfl
  obtain ⟨code, q, hrun, hvisited, hwrote⟩ := chain_next hwalks h hlevels hown
    (hvisit.sound hp) hfollowing
  refine ⟨code, q, ?_, fun id hid => ?_, hwrote.after hvisit rfl⟩
  · rw [chain_fresh _ _ (hfresh _ t.id_mem_ids), hnode]
    exact hrun
  · rcases hvisited id hid with hid | ⟨socket, hid⟩ | hid
    · rcases List.mem_cons.1 hid with rfl | hid
      · exact .inr t.id_mem_ids
      · exact .inl hid
    · exact .inr (t.inputIds_subset socket id hid)
    · exact .inr (nextIds_subset t id hid)

/-! ## All levels -/

/-- **Trees become text**, with as many levels as they have blocks. -/
theorem walks (hdefaults : LiteralDefaults registry) (levels : Nat) :
    Walks v registry graph levels := by
  induction levels with
  | zero =>
    exact ⟨fun {t} _ hlevels => absurd t.length_blocks_pos (Nat.not_lt.2 hlevels),
      fun {t} _ hlevels => absurd t.length_blocks_pos (Nat.not_lt.2 hlevels)⟩
  | succ levels ih =>
    exact ⟨fun h hlevels _ hdefault _ hp => expression_step hdefaults ih h hlevels hdefault hp,
      fun h hlevels _ hp hfresh => chain_step hdefaults ih h hlevels hp hfresh⟩

end Generation
end VisualBlocks

import VisualBlocks.Proofs.Generation.Composition
import VisualBlocks.Proofs.Generation.Licence
import VisualBlocks.Proofs.Generation.Walking

/-!
# What rules rely on, and what they give

A rule sees a block of a tree (`Site.Shows`) and asks for the text of the trees in its inputs.
`Served known answer t` says what it can rely on: how the requests of a rule for the block `t` are
answered.  In return a rule for values gives a text that is the expression of the block
(`Valued`), and a rule for statements gives lines that have the form of the block (`Stated`).  Both
name only what the pass and the licence of the tree allow.

Rules are thereby proved one by one, without the walk over the graph.
-/

set_option autoImplicit false

namespace VisualBlocks
namespace Generation

open Script

/-! ## What a rule sees -/

/-- Are all literals that the registry declares for empty inputs right in every place? -/
def LiteralDefaults (r : Registry) : Prop :=
  ∀ type socket default, r.socketDefault? type socket = some default → IsLiteral default

/-- The site shows the block at the root of the tree, in the language of the scripts. -/
structure Site.Shows (s : Site) (t : BlockTree) : Prop where
  node : s.node = t.node
  language : s.language = scriptLanguage
  indent : s.indent = "  "
  literals : LiteralDefaults s.registry

namespace Site.Shows

variable {s : Site} {t : BlockTree}

theorem field? (h : s.Shows t) (name : String) : s.field? name = t.fields.get? name := by
  rw [Site.field?, h.node]
  rfl

theorem fieldOr (h : s.Shows t) (name default : String) :
    s.fieldOr name default = (t.fields.get? name).getD default := by
  rw [Site.fieldOr, h.field?]

theorem mutation? (h : s.Shows t) (key : String) : s.mutation? key = t.mutation.get? key := by
  rw [Site.mutation?, h.node]
  rfl

theorem isFilled (h : s.Shows t) (socket : String) :
    s.isFilled socket = (t.input? socket).isSome := by
  rw [Site.isFilled, h.node, Table.contains, BlockTree.node_input?, Option.isSome_map]

theorem isLiteral_socketDefault (h : s.Shows t) (socket : String) :
    IsLiteral (s.socketDefault socket) := by
  rw [Site.socketDefault]
  cases hdefault : s.registry.socketDefault? s.node.type socket with
  | none => exact isLiteral_empty
  | some default => exact h.literals _ _ _ hdefault

end Site.Shows

theorem isLiteral_zero : IsLiteral "0" := ⟨(says_number 0 (by decide) rfl).1, rfl, rfl⟩

theorem isLiteral_true : IsLiteral "true" := isLiteral_word (.inl rfl)

theorem isLiteral_false : IsLiteral "false" := isLiteral_word (.inr (.inl rfl))

theorem isLiteral_null : IsLiteral "null" := isLiteral_word (.inr (.inr rfl))

/-- The literal of a kind is right in every place. -/
theorem isLiteral_defaultLiteral (kind : ValueKind) : IsLiteral kind.defaultLiteral := by
  cases kind with
  | string => exact isLiteral_empty
  | number => exact isLiteral_zero
  | boolean => exact isLiteral_false
  | other name => exact isLiteral_null

/-- The literal for the value of a block is right in every place. -/
theorem isLiteral_outputDefault (s : Site) : IsLiteral s.outputDefault := by
  rw [Site.outputDefault]
  cases s.registry.get? s.node.type with
  | none => exact isLiteral_empty
  | some type =>
    rw [Option.bind_some, BlockType.outputLiteral?]
    cases type.output.bind List.head? with
    | none => exact isLiteral_empty
    | some kind => exact isLiteral_defaultLiteral kind

/-! ## Expressions -/

/-- A pass that has gone on without entering a block or naming a counter. -/
structure Pass.Moves (p q : Pass) : Prop where
  grows : p.Grows q
  visited : q.visited = p.visited
  counters : q.counters = p.counters

theorem Pass.Moves.refl (p : Pass) : p.Moves p := ⟨.refl p, rfl, rfl⟩

theorem Pass.Moves.trans {p q r : Pass} (hpq : p.Moves q) (hqr : q.Moves r) : p.Moves r :=
  ⟨hpq.grows.trans hqr.grows, hqr.visited.trans hpq.visited, hqr.counters.trans hpq.counters⟩

/-- Whatever names are still to come, the expression is the given one up to how it is grouped. -/
def Denotes (p : Pass) (e : Expr) (meaning : (String → String) → Expr) : Prop :=
  ∀ q, p.Grows q → Regrouped e (meaning q.nameOf)

theorem Denotes.grows {p q : Pass} {e : Expr} {meaning : (String → String) → Expr}
    (h : Denotes p e meaning) (hpq : p.Grows q) : Denotes q e meaning :=
  fun r hqr => h r (hpq.trans hqr)

/-- The expression stands in an input of the tree: it names what it may, and it is what the input
means, if the tree has a meaning. -/
structure Operand (t : BlockTree) (socket default : String) (e : Expr) (p : Pass) : Prop where
  inScope : e.InScope (p.scope t.Odd)
  denotes : t.Standard → Denotes p e fun names => t.operandIn names socket default

theorem Operand.grows {t : BlockTree} {socket default : String} {e : Expr} {p q : Pass}
    (h : Operand t socket default e p) (hpq : p.Grows q) : Operand t socket default e q :=
  ⟨h.inScope.mono (hpq.scope fun _ h => h), fun ht => (h.denotes ht).grows hpq⟩

/-- What a rule for values gives: the text of an expression, which is that of the tree. -/
structure Valued (t : BlockTree) (p : Pass) (result : String × Order) (q : Pass) : Prop where
  moves : p.Moves q
  spelling : ∃ w e, Says result.2 result.1 w e ∧ e.InScope (q.scope t.Odd) ∧
    (t.Standard → Denotes q e fun names => t.expr names)

theorem Valued.spelt {t : BlockTree} {p q : Pass} {result : String × Order}
    (h : Valued t p result q) :
    ∃ w e, Says result.2 result.1 w e ∧ (t.Standard → Denotes q e fun names => t.expr names) := by
  obtain ⟨w, e, hsays, -, hmeaning⟩ := h.spelling
  exact ⟨w, e, hsays, hmeaning⟩

/-! ## Statements -/

/-- Lines that are statements of the given form.  If they are quiet there is no name in them of
anything outside the program, they name nothing outside the scope, and in the heads of loops they
declare the counters. -/
def Stands (code : String) (form : List Outline) (quiet : Prop) (S : Scope)
    (counters : List String) : Prop :=
  ∃ w ss, Lines code w ∧ Writes w ss ∧ outlines ss = form ∧ (quiet → Harmless w) ∧ Scoped S ss ∧
    bodyCounters ss = counters

section Stands

variable {code a b : String} {form os ps : List Outline} {quiet quiet' : Prop} {S T : Scope}
  {counters cs ds : List String}

theorem Stands.nil (quiet : Prop) (S : Scope) : Stands "" [] quiet S [] :=
  ⟨[], [], .nil, .nil, rfl, fun _ => .nil, .nil S, rfl⟩

theorem Stands.append (ha : Stands a os quiet S cs) (hb : Stands b ps quiet S ds) :
    Stands (a ++ b) (os ++ ps) quiet S (cs ++ ds) := by
  obtain ⟨v, ss, hlines, hwrites, rfl, hv, hscoped, rfl⟩ := ha
  obtain ⟨w, ts, hlines', hwrites', rfl, hw, hscoped', rfl⟩ := hb
  exact ⟨v ++ w, ss ++ ts, hlines.append hlines', hwrites.append hwrites', outlines_append ss ts,
    fun hquiet => (hv hquiet).append (hw hquiet), hscoped.append hscoped', bodyCounters_append ss ts⟩

theorem Stands.mono (h : Stands code form quiet S counters) (hquiet : quiet' → quiet)
    (hST : S.Within T) : Stands code form quiet' T counters := by
  obtain ⟨w, ss, hlines, hwrites, hform, hw, hscoped, hcounters⟩ := h
  exact ⟨w, ss, hlines, hwrites, hform, fun h => hw (hquiet h), hscoped.mono hST, hcounters⟩

/-- Lines that hold nothing but comments are no statements. -/
theorem Stands.comment (h : Lines code []) (quiet : Prop) (S : Scope) :
    Stands code [] quiet S [] :=
  ⟨[], [], h, .nil, rfl, fun _ => .nil, .nil S, rfl⟩

end Stands

/-- On the way from one pass to the other, lines of the form have been written.  They name what the
licence allows and what the later pass knows, and their counters are those the pass has named in
between. -/
structure Wrote (L : Licence) (form : List Outline) (p : Pass) (code : String) (q : Pass) :
    Prop where
  grows : p.Grows q
  stands : ∃ counters, Stands code form L.quiet (q.scope L.odd) counters ∧
    q.counters = counters.reverse ++ p.counters

namespace Wrote

variable {L M : Licence} {form os ps : List Outline} {p q r : Pass} {code a b : String}

theorem of_moves (hpq : p.Moves q) (h : Stands code form L.quiet (q.scope L.odd) []) :
    Wrote L form p code q := ⟨hpq.grows, [], h, hpq.counters⟩

theorem nil (L : Licence) (p : Pass) : Wrote L [] p "" p := .of_moves (.refl p) (.nil _ _)

theorem append (ha : Wrote L os p a q) (hb : Wrote L ps q b r) : Wrote L (os ++ ps) p (a ++ b) r := by
  obtain ⟨hpq, cs, hcode, hcounters⟩ := ha
  obtain ⟨hqr, ds, hcode', hcounters'⟩ := hb
  refine ⟨hpq.trans hqr, cs ++ ds, ?_, ?_⟩
  · exact (hcode.mono (fun h => h) (hqr.scope fun _ h => h)).append hcode'
  · rw [hcounters', hcounters, List.reverse_append, List.append_assoc]

theorem mono (h : Wrote L form p code q) (hL : L.Within M) : Wrote M form p code q := by
  obtain ⟨hpq, cs, hcode, hcounters⟩ := h
  exact ⟨hpq, cs, hcode.mono hL.quiet ((Pass.Grows.refl q).scope hL.odd), hcounters⟩

/-- A pass that has named no counter has written nothing. -/
theorem after (hpq : p.Grows q) (hsame : q.counters = p.counters) (h : Wrote L form q code r) :
    Wrote L form p code r := by
  obtain ⟨hqr, cs, hcode, hcounters⟩ := h
  exact ⟨hpq.trans hqr, cs, hcode, by rw [hcounters, hsame]⟩

/-- What is done to the text does not matter, as long as it stands as before. -/
theorem reword {code' : String} (h : Wrote L form p code q)
    (hcode : ∀ S counters, Stands code form L.quiet S counters →
      Stands code' form L.quiet S counters) : Wrote L form p code' q := by
  obtain ⟨hpq, cs, hstands, hcounters⟩ := h
  exact ⟨hpq, cs, hcode _ _ hstands, hcounters⟩

end Wrote

/-- What a rule for statements gives: lines of the form of the block.  It enters blocks in the
inputs of the block only. -/
structure Stated (known : String → Bool) (t : BlockTree) (p : Pass) (code : String) (q : Pass) :
    Prop where
  visited : ∀ id ∈ q.visited, id ∈ p.visited ∨ ∃ socket, id ∈ t.inputIds socket
  wrote : Wrote t.licence
    (BlockTree.shape t.type t.mutation (BlockTree.inputOutlines known t.inputs)) p (closeLine code) q

/-! ## Requests -/

/-- The requests of a rule for the block at the root of the tree are answered as they should. -/
structure Served (known : String → Bool) (answer : Request → Walk String) (t : BlockTree) :
    Prop where
  value (socket : String) {outer : Order} {default : String} {p : Pass}
    (houter : outer ∈ Order.places) (hdefault : IsLiteral default) (hp : p.Sound) :
    (answer (.value socket outer default)).Ensures p fun code q =>
      p.Moves q ∧ ∃ w e, Fits outer code w e ∧ Operand t socket default e q
  body (socket : String) {p : Pass} (hp : p.Sound)
    (hvisited : ∀ id ∈ t.inputIds socket, id ∉ p.visited) :
    (answer (.body socket)).Ensures p fun code q =>
      (∀ id ∈ q.visited, id ∈ p.visited ∨ id ∈ t.inputIds socket) ∧
        Wrote t.licence (t.bodyOutlines known socket) p code q
  variableName (raw : String) {p : Pass} (hp : p.Sound) :
    (answer (.variableName raw)).Ensures p fun name q =>
      p.Moves q ∧ ScriptName name ∧ q.known.lookup raw = some name
  freshName (base : String) (p : Pass) :
    (answer (.freshName base)).Ensures p fun name q =>
      p.Grows q ∧ q.visited = p.visited ∧ q.counters = name :: p.counters ∧ ScriptName name

section Asking

variable {known : String → Bool} {answer : Request → Walk String} {t : BlockTree} {p : Pass}

theorem Served.asksValue (h : Served known answer t) (socket : String) {outer : Order}
    {default : String} (houter : outer ∈ Order.places) (hdefault : IsLiteral default)
    (hp : p.Sound) :
    ((Emission.value socket outer default).run answer).Ensures p fun code q =>
      p.Moves q ∧ ∃ w e, Fits outer code w e ∧ Operand t socket default e q :=
  Emission.ensures_ask (h.value socket houter hdefault hp)

/-- What fits in a place where every expression can stand is an argument. -/
theorem right_of_fits {outer : Order} {code : String} {w : List Lexeme} {e : Expr}
    (h : Fits outer code w e) (hdemand : outer.demand = 0) (hchain : outer.chained? = none) :
    (⟨code, w, e⟩ : Argument).Right := by
  have hspells := h.spells hchain
  rw [hdemand] at hspells
  exact ⟨h.inline, h.harmless, hspells, h.isLeftward⟩

/-- **Values are asked for one after the other.** -/
theorem Served.asksValues (h : Served known answer t) {α : Type} (l : List α)
    (socket default : α → String) {outer : Order} (houter : outer ∈ Order.places)
    (hdefault : ∀ a, IsLiteral (default a)) (hp : p.Sound) :
    ((l.mapM fun a => Emission.value (socket a) outer (default a)).run answer).Ensures p
      fun codes q => p.Moves q ∧ ∃ args : List Argument, args.map Argument.code = codes ∧
        (∀ x ∈ args, Fits outer x.code x.text x.value) ∧
        List.Forall₂ (fun a x => Operand t (socket a) (default a) x.value q) l args := by
  have hanswers := Emission.ensures_mapM (f := fun a => Emission.value (socket a) outer (default a))
    (fun _ q => p.Moves q)
    (fun a code q r => q.Grows r ∧ ∃ w e, Fits outer code w e ∧ Operand t (socket a) (default a) e r)
    (fun a rest q hpq => (h.asksValue (socket a) houter (hdefault a) (hpq.grows.sound hp)).mono
      fun code r hcode => ⟨⟨hcode.1.grows, hcode.2⟩, hpq.trans hcode.1⟩)
    l p (.refl p)
  refine hanswers.mono fun codes q hcodes => ?_
  obtain ⟨hthreaded, hpq⟩ := hcodes
  have hall : List.Forall₂ (fun a code => ∃ w e, Fits outer code w e ∧
      Operand t (socket a) (default a) e q) l codes :=
    hthreaded.forall₂ (fun _ _ _ _ h => h.1) (fun _ _ _ _ h => h.2)
      fun _ _ _ _ ⟨w, e, hfits, hoperand⟩ hqr => ⟨w, e, hfits, hoperand.grows hqr⟩
  refine ⟨hpq, ?_⟩
  clear hanswers hthreaded
  induction hall with
  | nil => exact ⟨[], rfl, nofun, .nil⟩
  | cons hhead _ ih =>
    obtain ⟨w, e, hfits, hoperand⟩ := hhead
    obtain ⟨args, rfl, hargs, hoperands⟩ := ih
    refine ⟨⟨_, w, e⟩ :: args, rfl, fun x hx => ?_, .cons hoperand hoperands⟩
    rcases List.mem_cons.1 hx with rfl | hx
    · exact hfits
    · exact hargs x hx

theorem Served.asksBody (h : Served known answer t) (socket : String) (hp : p.Sound)
    (hvisited : ∀ id ∈ t.inputIds socket, id ∉ p.visited) :
    ((Emission.body socket).run answer).Ensures p fun code q =>
      (∀ id ∈ q.visited, id ∈ p.visited ∨ id ∈ t.inputIds socket) ∧
        Wrote t.licence (t.bodyOutlines known socket) p code q :=
  Emission.ensures_ask (h.body socket hp hvisited)

theorem Served.asksVariableName (h : Served known answer t) (raw : String) (hp : p.Sound) :
    ((Emission.variableName raw).run answer).Ensures p fun name q =>
      p.Moves q ∧ ScriptName name ∧ q.known.lookup raw = some name :=
  Emission.ensures_ask (h.variableName raw hp)

theorem Served.asksFreshName (h : Served known answer t) (base : String) :
    ((Emission.freshName base).run answer).Ensures p fun name q =>
      p.Grows q ∧ q.visited = p.visited ∧ q.counters = name :: p.counters ∧ ScriptName name :=
  Emission.ensures_ask (h.freshName base p)

end Asking

end Generation
end VisualBlocks

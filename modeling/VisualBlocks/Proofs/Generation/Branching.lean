import VisualBlocks.Proofs.Generation.Statements

/-!
# The rule for conditions

A condition is the one block with any number of bodies: a branch for each condition it has, and
possibly one for all other cases.  Its text is put together branch by branch, each going on in the
line where the one before it ends (`unfinished_branches`).

Each branch asks for the chain in an input of its own.  **The blocks of the branches still to come
have not been entered**: that is the invariant of the walk over the branches (`ensures_branches`).
-/

set_option autoImplicit false

namespace VisualBlocks
namespace Generation
namespace Standard

open Script BlockTree

/-! ## The text of branches -/

/-- The text is that of the branch, wherever in a line it begins. -/
structure IsBranch (quiet : Prop) (code : String) (b : Branch) : Prop where
  continues {a : String} {v : List Lexeme} (h : Unfinished a v) :
    Unfinished (a ++ code) (v ++ b.text)
  solid : Solid code
  condition : Spells 0 b.conditionText b.condition
  body : Writes b.bodyText b.body
  harmless : quiet → Harmless b.text

theorem solid_braced (head body : String) : Solid (braced head body) :=
  Solid.append ⟨'\x7d', by decide, by decide⟩

/-- A condition in parentheses and a body in braces are a branch. -/
theorem isBranch_braced {quiet : Prop} {condition body : String} {v w : List Lexeme} {e : Expr}
    {ss : List Statement} (hcondition : Fits .none condition v e) (hlines : Lines body w)
    (hwrites : Writes w ss) (hharmless : quiet → Harmless w) :
    IsBranch quiet (braced ("if (" ++ condition ++ ")") body) ⟨v, e, w, ss⟩ := by
  have hif : Mark "if (" [.keyword "if", .leftParen] :=
    ⟨fun rest => .token rfl (.skip rfl (.token rfl (.refl rest))), by decide⟩
  have hhead :=
    (hif.append_inline hcondition.inline).append mark_rightParen startsApart_rightParen
  refine ⟨fun {a u} h => ?_, solid_braced _ _, hcondition.spells rfl, hwrites, fun hquiet => ?_⟩
  · have hbranch := h.braced hhead.inline hlines
    have htext : [.keyword "if", .leftParen] ++ v ++ [.rightParen] ++ .leftBrace ::
        (w ++ [.rightBrace]) = (⟨v, e, w, ss⟩ : Branch).text := by
      rw [Branch.text]
      simp only [List.append_assoc, List.cons_append, List.nil_append]
    rw [htext] at hbranch
    exact hbranch
  · exact .cons nofun (.cons nofun (hcondition.harmless.append (.cons nofun (.cons nofun
      ((hharmless hquiet).append (.cons nofun .nil))))))

/-- **Branches follow one another in one line after the other.** -/
theorem unfinished_branches {quiet : Prop} {codes : List String} {bs : List Branch}
    (h : List.Forall₂ (IsBranch quiet) codes bs) {code : String} {b : Branch}
    (hfirst : IsBranch quiet code b) {a : String} {v : List Lexeme} (ha : Unfinished a v) :
    Unfinished (a ++ String.intercalate " else " (code :: codes)) (v ++ (b.text ++ elseIfs bs)) := by
  have helse : Mark " else " [.keyword "else"] :=
    ⟨fun rest => .skip rfl (.token rfl (.skip rfl (.refl rest))), by decide⟩
  induction h generalizing a v code b with
  | nil =>
    rw [String.intercalate_singleton, elseIfs, List.append_nil]
    exact hfirst.continues ha
  | @cons code' b' codes bs hhead _ ih =>
    have hrest := ih hhead ((hfirst.continues ha).mark helse)
    have hcode : a ++ (code ++ " else " ++ String.intercalate " else " (code' :: codes)) =
        a ++ code ++ " else " ++ String.intercalate " else " (code' :: codes) := by
      simp only [String.append_assoc]
    have htext : v ++ (b.text ++ elseIfs (b' :: bs)) =
        v ++ b.text ++ [.keyword "else"] ++ (b'.text ++ elseIfs bs) := by
      rw [elseIfs]
      simp only [List.append_assoc, List.cons_append, List.nil_append]
    rw [String.intercalate_cons_cons, hcode, htext]
    exact hrest

theorem solid_branches {quiet : Prop} {codes : List String} {bs : List Branch}
    (h : List.Forall₂ (IsBranch quiet) codes bs) {code : String} (hfirst : Solid code) :
    Solid (String.intercalate " else " (code :: codes)) := by
  induction h generalizing code with
  | nil => rwa [String.intercalate_singleton]
  | cons hhead _ ih =>
    rw [String.intercalate_cons_cons]
    exact (ih hhead.solid).append

theorem writes_branches {quiet : Prop} {codes : List String} {bs : List Branch}
    (h : List.Forall₂ (IsBranch quiet) codes bs) :
    ∀ b ∈ bs, Spells 0 b.conditionText b.condition ∧ Writes b.bodyText b.body := by
  induction h with
  | nil => exact List.forall_mem_nil _
  | cons hhead _ ih =>
    intro b hb
    rcases List.mem_cons.1 hb with rfl | hb
    · exact ⟨hhead.condition, hhead.body⟩
    · exact ih b hb

theorem harmless_elseIfs {quiet : Prop} {codes : List String} {bs : List Branch}
    (h : List.Forall₂ (IsBranch quiet) codes bs) (hquiet : quiet) : Harmless (elseIfs bs) := by
  induction h with
  | nil => exact .nil
  | cons hhead _ ih => exact .cons nofun ((hhead.harmless hquiet).append ih)

/-! ## Asking for branches -/

variable {known : String → Bool} {answer : Request → Walk String} {t : BlockTree} {s : Site}
  {p : Pass}

/-- Before the branches of the numbers `rest`: what has been entered is in branches before them. -/
structure BranchesLeft (t : BlockTree) (p : Pass) (rest : List Nat) (q : Pass) : Prop where
  grows : p.Grows q
  nodup : rest.Nodup
  visited : ∀ id ∈ q.visited,
    id ∈ p.visited ∨ ∃ i, i ∉ rest ∧ id ∈ t.inputIds ("DO" ++ toString i)

/-- The branches as parts of a statement. -/
def branchParts (bs : List Branch) : List (Expr × List Statement) :=
  bs.map fun b => (b.condition, b.body)

/-- What a branch of a number is, between two passes. -/
structure BranchOf (known : String → Bool) (t : BlockTree) (i : Nat) (code : String) (p q : Pass)
    (b : Branch) : Prop where
  grows : p.Grows q
  text : IsBranch t.Quiet code b
  form : Script.outlines b.body = t.bodyOutlines known ("DO" ++ toString i)
  condition : b.condition.InScope (q.scope t.Odd)
  body : Scoped (q.scope t.Odd) b.body
  counters : q.counters = (bodyCounters b.body).reverse ++ p.counters

theorem ensures_branch (hs : s.Shows t) (h : Served known answer t) (hp : p.Sound)
    (hnodup : t.ids.Nodup) (hvisited : ∀ socket, ∀ id ∈ t.inputIds socket, id ∉ p.visited)
    (i : Nat) (rest : List Nat) (q : Pass) (hleft : BranchesLeft t p (i :: rest) q) :
    ((branch s i).run answer).Ensures q fun code r =>
      (∃ b, BranchOf known t i code q r b) ∧ BranchesLeft t p rest r := by
  have hq := hleft.grows.sound hp
  rw [branch]
  refine Emission.ensures_bind (h.asksValue _ (by decide) isLiteral_false hq) fun x r hx => ?_
  obtain ⟨hqr, v, e, hfits, hoperand⟩ := hx
  have hfresh : ∀ id ∈ t.inputIds ("DO" ++ toString i), id ∉ r.visited := by
    intro id hid hentered
    rw [hqr.visited] at hentered
    rcases hleft.visited id hentered with hold | ⟨j, hj, hother⟩
    · exact hvisited _ id hid hold
    · have hne : "DO" ++ toString i ≠ "DO" ++ toString j :=
        fun heq => hj (Text.append_toString_injective heq ▸ List.mem_cons_self)
      exact disjoint_inputIds hnodup hne id hid hother
  refine Emission.ensures_bind (h.asksIndentedBody hs _ (hqr.grows.sound hq) hfresh)
    fun body o hbody => ?_
  obtain ⟨hentered, hro, cs, ⟨w, ss, hlines, hwrites, hform, hw, hscoped, rfl⟩, hcounters⟩ := hbody
  refine Emission.ensures_pure ⟨⟨⟨v, e, w, ss⟩, hqr.grows.trans hro,
    isBranch_braced hfits hlines hwrites hw, hform, (hoperand.grows hro).inScope, hscoped, ?_⟩,
    (hleft.grows.trans hqr.grows).trans hro, (List.nodup_cons.1 hleft.nodup).2, fun id hid => ?_⟩
  · rw [hcounters, hqr.counters]
  · rcases hentered id hid with hid | hid
    · rw [hqr.visited] at hid
      refine (hleft.visited id hid).imp_right fun ⟨j, hj, hother⟩ => ⟨j, fun hmem => ?_, hother⟩
      exact hj (List.mem_cons_of_mem _ hmem)
    · exact .inr ⟨i, (List.nodup_cons.1 hleft.nodup).1, hid⟩

/-- Branches of some numbers, in a pass that has come to their end. -/
structure BranchesOf (known : String → Bool) (t : BlockTree) (is : List Nat) (codes : List String)
    (p q : Pass) (bs : List Branch) : Prop where
  texts : List.Forall₂ (IsBranch t.Quiet) codes bs
  forms : (bs.map fun b : Branch => Script.outlines b.body) =
    is.map fun i => t.bodyOutlines known ("DO" ++ toString i)
  conditions : ∀ b ∈ branchParts bs, b.1.InScope (q.scope t.Odd)
  bodies : ∀ b ∈ branchParts bs, Scoped (q.scope t.Odd) b.2
  counters : q.counters = (branchCounters (branchParts bs)).reverse ++ p.counters

/-- What each branch is tells what all of them are. -/
theorem exists_branches {is : List Nat} {codes : List String} {q : Pass}
    (h : Threaded (fun i code p q => ∃ b, BranchOf known t i code p q b) is codes p q) :
    ∃ bs, BranchesOf known t is codes p q bs := by
  induction h with
  | nil p => exact ⟨[], .nil, rfl, nofun, nofun, rfl⟩
  | cons hhead hrest ih =>
    have hgrows := hrest.grows fun _ _ _ _ ⟨_, hb⟩ => hb.grows
    have hwithin := hgrows.scope fun x (h : t.Odd x) => h
    obtain ⟨b, hb⟩ := hhead
    obtain ⟨bs, hbs⟩ := ih
    refine ⟨b :: bs, .cons hb.text hbs.texts, ?_, ?_, ?_, ?_⟩
    · rw [List.map_cons, List.map_cons, hb.form, hbs.forms]
    · exact List.forall_mem_cons.2 ⟨hb.condition.mono hwithin, hbs.conditions⟩
    · exact List.forall_mem_cons.2 ⟨hb.body.mono hwithin, hbs.bodies⟩
    · have hparts : branchCounters (branchParts (b :: bs)) =
          bodyCounters b.body ++ branchCounters (branchParts bs) := rfl
      rw [hbs.counters, hb.counters, hparts, List.reverse_append, List.append_assoc]

/-- **All branches are asked for.** -/
theorem ensures_branches (hs : s.Shows t) (h : Served known answer t) (hp : p.Sound)
    (hnodup : t.ids.Nodup) (hvisited : ∀ socket, ∀ id ∈ t.inputIds socket, id ∉ p.visited)
    (n : Nat) :
    (((List.range n).mapM (branch s)).run answer).Ensures p fun codes q =>
      BranchesLeft t p [] q ∧ ∃ bs, BranchesOf known t (List.range n) codes p q bs := by
  have hbranches := Emission.ensures_mapM (BranchesLeft t p)
    (fun i code q r => ∃ b, BranchOf known t i code q r b)
    (ensures_branch hs h hp hnodup hvisited) (List.range n) p
    ⟨.refl p, List.nodup_range, fun id hid => .inl hid⟩
  exact hbranches.mono fun codes q hcodes => ⟨hcodes.2, exists_branches hcodes.1⟩

/-! ## The whole condition -/

/-- Branches, possibly with a body for all other cases, are one statement. -/
theorem stands_branches (quiet : Prop) {S : Scope} {code : String} {codes : List String} {b : Branch}
    {bs : List Branch} (hfirst : IsBranch quiet code b)
    (hmore : List.Forall₂ (IsBranch quiet) codes bs) {last : String}
    (otherwise : Option (List Lexeme × List Statement))
    (hlast : ∀ {a : String} {v : List Lexeme}, Unfinished a v → Solid a →
      Unfinished (a ++ last) (v ++ elseText otherwise) ∧ Solid (a ++ last))
    (hotherwise : ∀ o ∈ otherwise, Writes o.1 o.2)
    (hharmless : quiet → Harmless (elseText otherwise))
    (hconditions : ∀ c ∈ branchParts (b :: bs), c.1.InScope S)
    (hbodies : ∀ c ∈ branchParts (b :: bs), Scoped S c.2)
    (helse : Scoped S (elseBody otherwise)) :
    Stands (closeLine (String.intercalate " else " (code :: codes) ++ last ++ "\n"))
      [.ifElse ((b :: bs).map fun b => Script.outlines b.body)
        (Script.outlines (elseBody otherwise))] quiet S
      (branchCounters (branchParts (b :: bs)) ++ bodyCounters (elseBody otherwise)) := by
  have hbranches := unfinished_branches hmore hfirst Unfinished.nil
  rw [String.empty_append, List.nil_append] at hbranches
  obtain ⟨hwhole, hsolid⟩ := hlast hbranches (solid_branches hmore hfirst.solid)
  have hlines := hwhole.ended hsolid
  have hall := writes_branches (.cons hfirst hmore)
  have hwrites := Writes.ifElse (fun b' hb' => (hall b' hb').1) (fun b' hb' => (hall b' hb').2)
    hotherwise Writes.nil
  rw [List.append_nil, ← List.append_assoc] at hwrites
  refine ⟨_, _, ?_, hwrites, ?_, fun hquiet => ?_, ?_, ?_⟩
  · rw [closeLine_of_lines hlines]
    exact hlines
  · rw [Script.outlines, Statement.outline, branchOutlines_parts, Script.outlines]
  · exact ((hfirst.harmless hquiet).append (harmless_elseIfs hmore hquiet)).append
      (hharmless hquiet)
  · exact .ifElse hconditions hbodies helse (.nil S)
  · exact List.append_nil _

theorem inline_else : Inline " else" [.keyword "else"] := by
  have hblank : Mark " " [] := ⟨fun rest => .skip rfl (.refl rest), by decide⟩
  have hword : IsWord "else".toList := isWord_of_all (by decide) (by decide)
  exact hblank.append_inline ⟨hword.phrase, by decide⟩

/-- No branch stands in the input for all other cases. -/
theorem branchSocket_ne_else (i : Nat) : "DO" ++ toString i ≠ "ELSE" := by
  intro heq
  have hheads := congrArg (fun code => code.toList.head?) heq
  rw [String.toList_append] at hheads
  exact absurd (Option.some.inj hheads) (by decide)

theorem stated_controlsIf (hs : s.Shows t) (htype : t.type = "controls_if")
    (h : Served known answer t) (hp : p.Sound) (hnodup : t.ids.Nodup)
    (hvisited : ∀ socket, ∀ id ∈ t.inputIds socket, id ∉ p.visited) :
    ((controlsIf s).run answer).Ensures p (Stated known t p) := by
  have hshape : shape t.type t.mutation (inputOutlines known t.inputs) =
      [.ifElse ((List.range (furtherBranches t.mutation + 1)).map fun i =>
        t.bodyOutlines known ("DO" ++ toString i)) (t.bodyOutlines known "ELSE")] := by
    rw [htype]
    rfl
  rw [controlsIf, hs.mutation?]
  refine Emission.ensures_bind (ensures_branches hs h hp hnodup hvisited
    (furtherBranches t.mutation + 1)) fun codes q hcodes => ?_
  obtain ⟨hleft, bs, hbranches, hforms, hconditions, hbodies, hcounters⟩ := hcodes
  rw [← hforms] at hshape
  cases hbranches with
  | nil =>
    have hlength := congrArg List.length hforms
    rw [List.length_map, List.length_map, List.length_range] at hlength
    cases hlength
  | @cons _ b _ bs hfirst hmore =>
    have hentered : ∀ id ∈ q.visited, id ∈ p.visited ∨ ∃ socket, id ∈ t.inputIds socket :=
      fun id hid => (hleft.visited id hid).imp_right fun ⟨i, _, hid⟩ => ⟨_, hid⟩
    split
    · have hfresh : ∀ id ∈ t.inputIds "ELSE", id ∉ q.visited := by
        intro id hid hid'
        rcases hleft.visited id hid' with hold | ⟨i, -, hother⟩
        · exact hvisited "ELSE" id hid hold
        · exact disjoint_inputIds hnodup (branchSocket_ne_else i).symm id hid hother
      have helse : (((fun body => braced " else" body) <$> s.indentedBody "ELSE").run
          answer).Ensures q fun last r => ∃ body, last = braced " else" body ∧
            (∀ id ∈ r.visited, id ∈ q.visited ∨ id ∈ t.inputIds "ELSE") ∧
              Wrote t.licence (t.bodyOutlines known "ELSE") q body r :=
        Emission.ensures_map ((h.asksIndentedBody hs "ELSE" (hleft.grows.sound hp) hfresh).mono
          fun body r hbody => ⟨body, rfl, hbody⟩)
      refine Emission.ensures_bind helse fun last r hlast => ?_
      obtain ⟨body, rfl, hother, hqr, cs, ⟨w, ss, hlines, hwrites, hform, hw, hscoped, rfl⟩,
        hnamed⟩ := hlast
      have hwithin := hqr.scope fun x (h : t.Odd x) => h
      refine Emission.ensures_pure ⟨fun id hid => ?_, hleft.grows.trans hqr,
        branchCounters (branchParts (b :: bs)) ++ bodyCounters ss, ?_, ?_⟩
      · rcases hother id hid with hid | hid
        · exact hentered id hid
        · exact .inr ⟨"ELSE", hid⟩
      · rw [hshape, ← hform]
        refine stands_branches t.Quiet hfirst hmore (some (w, ss)) (fun {a v} ha _ => ?_) ?_ ?_
          (fun c hc => (hconditions c hc).mono hwithin) (fun c hc => (hbodies c hc).mono hwithin)
          hscoped
        · exact ⟨ha.braced inline_else hlines, (solid_braced _ _).append⟩
        · intro o ho
          obtain rfl := Option.some.inj ho
          exact hwrites
        · exact fun hquiet => .cons (by decide) (.cons (by decide)
            ((hw hquiet).append (.cons (by decide) .nil)))
      · rw [hnamed, hcounters, List.reverse_append, List.append_assoc]
    · next hnone =>
      have hempty : t.bodyOutlines known "ELSE" = [] := by
        have hunfilled : ¬ (t.input? "ELSE").isSome = true := by
          intro hsome
          refine hnone ?_
          rw [hasElse, hs.isFilled, hsome, Bool.or_true]
        rw [bodyOutlines_eq, Option.not_isSome_iff_eq_none.1 hunfilled, nextOutlines]
      rw [pure_bind]
      refine Emission.ensures_pure ⟨hentered, hleft.grows, _, ?_, hcounters⟩
      rw [hshape, hempty]
      have hplain {a : String} {v : List Lexeme} (ha : Unfinished a v) (hsolid : Solid a) :
          Unfinished (a ++ "") (v ++ elseText none) ∧ Solid (a ++ "") := by
        rw [String.append_empty, elseText, List.append_nil]
        exact ⟨ha, hsolid⟩
      have hstands := stands_branches t.Quiet hfirst hmore none hplain (by simp)
        (fun _ => .nil) hconditions hbodies (.nil _)
      rwa [elseBody, bodyCounters, List.append_nil] at hstands

end Standard
end Generation
end VisualBlocks

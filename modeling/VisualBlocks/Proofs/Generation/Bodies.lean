import VisualBlocks.Proofs.Generation.Inlets

/-!
# Which bodies are asked for

The statements of a block stand in inputs that its type tells (`bodySockets`): one for a loop or a
table, one for each branch of a condition.  **A rule for statements asks for the chains in just these
inputs**, each of them once and in order, and a rule for values asks for none (`rule_bodies`).  What
is asked for in an input that is empty does not count: it is answered without a block.
-/

set_option autoImplicit false

namespace VisualBlocks
namespace Generation

open BlockTree

/-- The inputs that hold the statements of a block, in the order of the program. -/
def bodySockets (type : String) (mutation : Table String) : List String :=
  match type with
  | "controls_if" =>
    ((List.range (furtherBranches mutation + 1)).map fun i => "DO" ++ toString i) ++ ["ELSE"]
  | "controls_repeat_ext" | "controls_repeat" | "controls_whileUntil" | "sap_in_table" => ["DO"]
  | _ => []

theorem nodup_bodySockets (type : String) (mutation : Table String) :
    (bodySockets type mutation).Nodup := by
  rw [bodySockets.eq_def]
  split
  · refine List.nodup_append.2 ⟨?_, by decide, ?_⟩
    · exact List.nodup_range.map fun i j h => Text.append_toString_injective h
    · intro socket hsocket other hother
      obtain ⟨i, -, rfl⟩ := List.mem_map.1 hsocket
      obtain rfl := List.mem_singleton.1 hother
      exact Standard.branchSocket_ne_else i
  all_goals decide

/-! ## Conversations -/

/-- Whatever the answers are, the conversation asks for the bodies in the given inputs, in this
order; other bodies it asks for are in inputs that are not filled. -/
inductive Emission.Bodies {α : Type} (filled : String → Bool) : List String → Emission α → Prop
  | done (a : α) : Bodies filled [] (.done a)
  | body {socket : String} {sockets : List String} {resume : String → Emission α}
      (h : filled socket = true) (hresume : ∀ answer, Bodies filled sockets (resume answer)) :
      Bodies filled (socket :: sockets) (.ask (.body socket) resume)
  | unfilled {socket : String} {sockets : List String} {resume : String → Emission α}
      (h : filled socket = false) (hresume : ∀ answer, Bodies filled sockets (resume answer)) :
      Bodies filled sockets (.ask (.body socket) resume)
  | other {request : Request} {sockets : List String} {resume : String → Emission α}
      (h : ∀ socket, request ≠ .body socket)
      (hresume : ∀ answer, Bodies filled sockets (resume answer)) :
      Bodies filled sockets (.ask request resume)

/-- The name of the input, if it is read for the statements in it. -/
def Inlet.body? : Inlet → Option String
  | .value _ => none
  | .body socket => some socket

theorem filterMap_body_cons (socket : String) (inlets : List Inlet) :
    (Inlet.body socket :: inlets).filterMap Inlet.body? =
      socket :: inlets.filterMap Inlet.body? := rfl

/-- Of the inlets that are read, those for statements that are filled are the bodies asked for. -/
theorem Emission.Reads.bodies {α : Type} {filled : String → Bool} {inlets : List Inlet}
    {e : Emission α} (h : e.Reads filled inlets) :
    e.Bodies filled ((inlets.filterMap Inlet.body?).filter filled) := by
  induction h with
  | done a => exact .done a
  | @inlet request inlet inlets resume hinlet _ ih =>
    cases request with
    | value socket outer default =>
      cases hinlet
      exact .other nofun ih
    | body socket =>
      cases hinlet
      rw [filterMap_body_cons]
      cases hfilled : filled socket with
      | true =>
        rw [List.filter_cons_of_pos hfilled]
        exact .body hfilled ih
      | false =>
        rw [List.filter_cons_of_neg (Bool.eq_false_iff.1 hfilled)]
        exact .unfilled hfilled ih
    | variableName raw => cases hinlet
    | freshName base => cases hinlet
  | @unfilled inlet inlets e hunfilled _ ih =>
    cases inlet with
    | value socket => exact ih
    | body socket =>
      have hnot : ¬ filled socket = true := Bool.eq_false_iff.1 hunfilled
      rw [filterMap_body_cons, List.filter_cons_of_neg hnot]
      exact ih
  | name hname _ ih =>
    refine .other (fun socket heq => ?_) ih
    rw [heq] at hname
    cases hname

/-- **The inlets that hold the statements of a block are those that its type tells.** -/
theorem filterMap_inlets (type : String) (mutation : Table String) :
    (inlets type mutation).filterMap Inlet.body? = bodySockets type mutation := by
  rw [inlets.eq_def]
  split
  · rw [List.filterMap_append, List.filterMap_flatMap, bodySockets, List.map_eq_flatMap]
    rfl
  · rw [List.filterMap_map]
    exact List.filterMap_eq_nil_iff.2 fun _ _ => rfl
  · next hif _ =>
    -- The shape of the block does not matter any more, so the types can be looked through.
    have hshape : bodySockets type mutation = bodySockets type .empty := by
      rw [bodySockets.eq_def, bodySockets.eq_def]
      split
      · exact absurd rfl hif
      all_goals rfl
    have hall : ∀ t ∈ Builtin.all.types, t.name ≠ "controls_if" →
        t.inlets.filterMap Inlet.body? = bodySockets t.name .empty := by decide +kernel
    rw [hshape]
    cases ht : Builtin.all.get? type with
    | none =>
      rw [bodySockets.eq_def]
      split
      · exact absurd rfl hif
      · cases ht
      · cases ht
      · cases ht
      · cases ht
      · rfl
    | some t =>
      obtain ⟨hmem, rfl⟩ := Registry.get?_eq_some ht
      exact hall t hmem hif

/-! ## Rules -/

/-- Does the rule, made for blocks of the type, ask for the bodies in the inputs that hold the
statements, and in no others? -/
def Rule.AsksBodies (type : String) : Rule → Prop
  | .statement emit => ∀ s : Site,
    (emit s).Bodies s.isFilled ((bodySockets type s.node.mutation).filter s.isFilled)
  | .value emit => (∀ mutation, bodySockets type mutation = []) ∧
    ∀ s : Site, (emit s).Bodies s.isFilled []

/-- No statements stand in a block for a value. -/
theorem bodySockets_of_value {type : String} (h : type ∈ valueTypes ++ stubTypes)
    (mutation : Table String) : bodySockets type mutation = [] := by
  simp only [valueTypes, stubTypes, List.cons_append, List.nil_append, List.mem_cons,
    List.not_mem_nil, or_false] at h
  rcases h with rfl | rfl | rfl | rfl | rfl | rfl | rfl | rfl | rfl | rfl | rfl | rfl | rfl
  all_goals rfl

/-- **Every rule of a vocabulary asks for the bodies in the inputs that hold the statements.** -/
theorem rule_bodies (v : Vocabulary) (registry : Registry) {type : String} {rule : Rule}
    (h : (v.generator registry).rules.get? type = some rule) : rule.AsksBodies type := by
  have hreads := rule_reads v registry h
  cases rule with
  | statement emit =>
    intro s
    rw [← filterMap_inlets]
    exact (hreads s).bodies
  | value emit =>
    have hnone := bodySockets_of_value (rule_right (fun _ => true) v registry h).1
    refine ⟨hnone, fun s => ?_⟩
    have hbodies := (hreads s).bodies
    rwa [filterMap_inlets, hnone] at hbodies

end Generation
end VisualBlocks

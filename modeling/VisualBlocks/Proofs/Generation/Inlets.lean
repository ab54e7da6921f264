import Mathlib.Data.List.Nodup
import VisualBlocks.Proofs.Generation.Rules

/-!
# What the rules read

The rule for a block puts the text of other blocks into its own: values, and chains of statements.
Which inputs these blocks stand in is told by the type of the block and by its shape (`inlets`).
**A rule reads just these inputs**, each of them once and in order (`rule_reads`): whatever it is
answered, it asks for what is in an inlet that is filled, and for nothing that is in another input.

For most types the inlets are the inputs that the type declares.  Two types grow: a condition has as
many branches as its shape says, and a joined text as many parts.
-/

set_option autoImplicit false

namespace VisualBlocks

/-! ## Inlets -/

/-- An input that a rule reads: for the value in it, or for the statements. -/
inductive Inlet where
  | value (socket : String)
  | body (socket : String)
deriving Repr, DecidableEq

namespace Inlet

/-- The name of the input. -/
def socket : Inlet → String
  | value socket => socket
  | body socket => socket

end Inlet

/-- What a socket is to a rule; a field is no input. -/
def Socket.inlet? (s : Socket) : Option Inlet :=
  match s.kind with
  | .value _ _ => some (.value s.name)
  | .statement => some (.body s.name)
  | .field _ => none

theorem Registry.get?_eq_some {r : Registry} {name : String} {t : BlockType}
    (h : r.get? name = some t) : t ∈ r.types ∧ t.name = name := by
  have hname := List.find?_some h
  exact ⟨List.mem_of_find?_eq_some h, beq_iff_eq.1 hname⟩

/-- The inputs that a type declares, in order. -/
def BlockType.inlets (t : BlockType) : List Inlet := t.sockets.filterMap Socket.inlet?

/-- The types of all families of blocks. -/
def Builtin.all : Registry := ⟨standard ++ (automation ++ canvas)⟩

namespace Generation

open BlockTree

/-- The inlets of one branch of a condition. -/
def branchInlets (i : Nat) : List Inlet := [.value ("IF" ++ toString i), .body ("DO" ++ toString i)]

/-- The inlet for one part of a joined text. -/
def partInlet (i : Nat) : Inlet := .value ("ADD" ++ toString i)

/-- The inlets of a block, in the order in which they are read. -/
def inlets (type : String) (mutation : Table String) : List Inlet :=
  match type with
  | "controls_if" =>
    (List.range (furtherBranches mutation + 1)).flatMap branchInlets ++ [.body "ELSE"]
  | "text_join" => (List.range (joinCount mutation)).map partInlet
  | other => (Builtin.all.get? other).elim [] BlockType.inlets

theorem valueSocket_ne_bodySocket (i j : Nat) : "IF" ++ toString i ≠ "DO" ++ toString j := by
  intro heq
  have hheads := congrArg (fun s : String => s.toList.head?) heq
  simp [String.toList_append] at hheads

theorem valueSocket_ne_else (i : Nat) : "IF" ++ toString i ≠ "ELSE" := by
  intro heq
  have hheads := congrArg (fun s : String => s.toList.head?) heq
  simp [String.toList_append] at hheads

theorem map_socket_branchInlets (i : Nat) :
    (branchInlets i).map Inlet.socket = ["IF" ++ toString i, "DO" ++ toString i] := rfl

/-- **No two inlets of a block are the same input.** -/
theorem nodup_inlets (type : String) (mutation : Table String) :
    ((inlets type mutation).map Inlet.socket).Nodup := by
  rw [inlets.eq_def]
  split
  · rw [List.map_append, List.map_flatMap, List.nodup_append]
    refine ⟨?_, List.nodup_singleton _, ?_⟩
    · refine List.nodup_flatMap.2 ⟨fun i _ => ?_, List.nodup_range.imp fun {i j} hne => ?_⟩
      · rw [map_socket_branchInlets, List.nodup_cons, List.mem_singleton]
        exact ⟨valueSocket_ne_bodySocket i i, List.nodup_singleton _⟩
      · intro socket hi hj
        rcases List.mem_pair.1 hi with rfl | rfl <;> rcases List.mem_pair.1 hj with heq | heq
        · exact hne (Text.append_toString_injective heq)
        · exact valueSocket_ne_bodySocket i j heq
        · exact valueSocket_ne_bodySocket j i heq.symm
        · exact hne (Text.append_toString_injective heq)
    · intro socket hsocket other hother
      obtain ⟨i, -, hsocket⟩ := List.mem_flatMap.1 hsocket
      obtain rfl := List.mem_singleton.1 hother
      rcases List.mem_pair.1 hsocket with rfl | rfl
      · exact valueSocket_ne_else i
      · exact Standard.branchSocket_ne_else i
  · rw [List.map_map]
    exact List.nodup_range.map fun i j h => Text.append_toString_injective h
  · have hall : ∀ t ∈ Builtin.all.types, (t.inlets.map Inlet.socket).Nodup := by decide +kernel
    cases ht : Builtin.all.get? type with
    | none => exact .nil
    | some t => exact hall t (Registry.get?_eq_some ht).1

/-! ## Conversations -/

/-- The inlet that a request asks for; names are in no inlet. -/
def Request.inlet? : Request → Option Inlet
  | .value socket _ _ => some (.value socket)
  | .body socket => some (.body socket)
  | .variableName _ => none
  | .freshName _ => none

/-- Whatever the answers are, the conversation asks for what is in the given inlets, in this order,
and for no other blocks.  It may leave out an inlet that is not filled. -/
inductive Emission.Reads {α : Type} (filled : String → Bool) : List Inlet → Emission α → Prop
  | done (a : α) : Reads filled [] (.done a)
  | inlet {request : Request} {inlet : Inlet} {inlets : List Inlet} {resume : String → Emission α}
      (h : request.inlet? = some inlet) (hresume : ∀ answer, Reads filled inlets (resume answer)) :
      Reads filled (inlet :: inlets) (.ask request resume)
  | unfilled {inlet : Inlet} {inlets : List Inlet} {e : Emission α}
      (h : filled inlet.socket = false) (hrest : Reads filled inlets e) :
      Reads filled (inlet :: inlets) e
  | name {request : Request} {inlets : List Inlet} {resume : String → Emission α}
      (h : request.inlet? = none) (hresume : ∀ answer, Reads filled inlets (resume answer)) :
      Reads filled inlets (.ask request resume)

namespace Emission.Reads

variable {α β : Type} {filled : String → Bool} {e : Emission α} {f : α → Emission β}
  {xs ys : List Inlet}

theorem pure (a : α) : (Pure.pure a : Emission α).Reads filled [] := .done a

theorem bind (h : e.Reads filled xs) (hf : ∀ a, (f a).Reads filled ys) :
    (e >>= f).Reads filled (xs ++ ys) := by
  induction h with
  | done a => exact hf a
  | inlet h _ ih => exact .inlet h ih
  | unfilled h _ ih => exact .unfilled h ih
  | name h _ ih => exact .name h ih

theorem map (f : α → β) (h : e.Reads filled xs) : (f <$> e).Reads filled xs := by
  have hbind := h.bind fun a => pure (f a)
  rwa [List.append_nil, ← map_eq_pure_bind] at hbind

theorem mapM {read : α → List Inlet} (l : List α) (h : ∀ a, (f a).Reads filled (read a)) :
    (l.mapM f).Reads filled (l.flatMap read) := by
  induction l with
  | nil => exact .pure []
  | cons a l ih =>
    rw [List.mapM_cons, List.flatMap_cons]
    exact (h a).bind fun _ => ih.map _

theorem value (socket : String) (outer : Order) (default : String) :
    (Emission.value socket outer default).Reads filled [.value socket] := .inlet rfl .done

theorem variableName (raw : String) : (Emission.variableName raw).Reads filled [] := .name rfl .done

theorem freshName (base : String) : (Emission.freshName base).Reads filled [] := .name rfl .done

theorem indentedBody (s : Site) (socket : String) :
    (s.indentedBody socket).Reads filled [.body socket] := .inlet rfl fun _ => .pure _

/-- The expressions in some inputs. -/
theorem arguments (s : Site) (sockets : List String) :
    (sockets.mapM fun socket => s.value socket .none).Reads filled (sockets.map .value) := by
  rw [List.map_eq_flatMap]
  exact .mapM sockets fun _ => value _ _ _

end Emission.Reads

/-! ## Rules -/

/-- Does the rule, made for blocks of the type, read the inlets of the block and nothing else? -/
def Rule.ReadsInlets (type : String) : Rule → Prop
  | .statement emit => ∀ s : Site, (emit s).Reads s.isFilled (inlets type s.node.mutation)
  | .value emit => ∀ s : Site, (emit s).Reads s.isFilled (inlets type s.node.mutation)

section Rules

variable {filled : String → Bool} (s : Site)

open Emission.Reads (value variableName freshName indentedBody)

namespace Standard

theorem reads_binary (op : String) (order : Order) (missing : String) :
    (binary op order missing).Reads filled [.value "A", .value "B"] :=
  (value _ _ _).bind fun _ => .map _ (value _ _ _)

theorem reads_assign (op socket : String) : (assign s op socket).Reads filled [.value socket] :=
  (value _ _ _).bind fun _ => .map _ (variableName _)

theorem reads_repeatLoop (times : String) : (repeatLoop s times).Reads filled [.body "DO"] :=
  (indentedBody s _).bind fun _ => .map _ (freshName _)

theorem reads_controlsWhileUntil :
    (controlsWhileUntil s).Reads filled [.value "BOOL", .body "DO"] := by
  rw [controlsWhileUntil]
  split
  · exact .bind (.map _ (value _ _ _)) fun _ => .map _ (indentedBody s _)
  · exact .bind (value _ _ _) fun _ => .map _ (indentedBody s _)

theorem reads_branch (i : Nat) : (branch s i).Reads filled (branchInlets i) :=
  .bind (value _ _ _) fun _ => .map _ (indentedBody s _)

/-- A condition reads the input for all other cases wherever it is filled. -/
theorem reads_controlsIf :
    (controlsIf s).Reads s.isFilled (inlets "controls_if" s.node.mutation) := by
  rw [controlsIf]
  refine .bind (.mapM _ (reads_branch s)) fun branches => ?_
  dsimp only
  split
  · exact .map _ (.map _ (indentedBody s _))
  · next hnone =>
    rw [hasElse, Bool.or_eq_true, not_or] at hnone
    exact .unfilled (Bool.eq_false_iff.2 hnone.2) (.pure _)

theorem reads_logicCompare : (logicCompare s).Reads filled [.value "A", .value "B"] := by
  rw [logicCompare]
  split <;> exact reads_binary _ _ _

theorem reads_logicOperation : (logicOperation s).Reads filled [.value "A", .value "B"] := by
  rw [logicOperation]
  split <;> exact reads_binary _ _ _

theorem reads_mathArithmetic : (mathArithmetic s).Reads filled [.value "A", .value "B"] := by
  rw [mathArithmetic]
  split
  · exact reads_binary _ _ _
  · exact reads_binary _ _ _
  · exact reads_binary _ _ _
  · exact .bind (value _ _ _) fun _ => .map _ (value _ _ _)
  · exact reads_binary _ _ _

theorem reads_logicTernary :
    (logicTernary s).Reads filled [.value "IF", .value "THEN", .value "ELSE"] :=
  .bind (value _ _ _) fun _ => .bind (value _ _ _) fun _ => .map _ (value _ _ _)

/-- The parts of a joined text are read in order; one part alone is the first. -/
theorem reads_textJoin : (textJoin s).Reads filled (inlets "text_join" s.node.mutation) := by
  have hinlets : inlets "text_join" s.node.mutation =
      (List.range (((s.mutation? "items").bind Number.natural?).getD 2)).map partInlet := rfl
  rw [hinlets, textJoin]
  split
  · next h =>
    rw [h]
    exact .pure _
  · next h =>
    rw [h]
    exact .map _ (value _ _ _)
  · rw [List.map_eq_flatMap]
    exact .map _ (.mapM _ fun _ => value _ _ _)

end Standard

theorem readsInlets_standard : ∀ entry ∈ Standard.rules, entry.2.ReadsInlets entry.1 := by
  intro entry hentry
  simp only [Standard.rules, List.mem_cons, List.not_mem_nil, or_false] at hentry
  rcases hentry with rfl | rfl | rfl | rfl | rfl | rfl | rfl | rfl | rfl | rfl | rfl | rfl | rfl |
    rfl | rfl | rfl | rfl | rfl
  · exact fun s => Standard.reads_controlsIf s
  · exact fun s => .bind (value _ _ _) fun _ => Standard.reads_repeatLoop s _
  · exact fun s => Standard.reads_repeatLoop s _
  · exact fun s => Standard.reads_controlsWhileUntil s
  · exact fun s => Standard.reads_logicCompare s
  · exact fun s => Standard.reads_logicOperation s
  · exact fun s => .map _ (value _ _ _)
  · exact fun s => .pure _
  · exact fun s => .pure _
  · exact fun s => Standard.reads_logicTernary s
  · exact fun s => .pure _
  · exact fun s => Standard.reads_mathArithmetic s
  · exact fun s => Standard.reads_assign s _ _
  · exact fun s => .pure _
  · exact fun s => Standard.reads_textJoin s
  · exact fun s => .map _ (value _ _ _)
  · exact fun s => .map _ (variableName _)
  · exact fun s => Standard.reads_assign s _ _

theorem readsInlets_automation : ∀ entry ∈ Automation.rules, entry.2.ReadsInlets entry.1 := by
  have hstub {type : String} (method : String) (sockets : List String)
      (htype : ∀ mutation, inlets type mutation = sockets.map .value) :
      (Automation.stub method sockets).ReadsInlets type := by
    intro s
    rw [htype]
    exact .map _ (.arguments s sockets)
  have hvalue {type : String} (method : String) (sockets : List String)
      (htype : ∀ mutation, inlets type mutation = sockets.map .value) :
      (Automation.valueStub method sockets).ReadsInlets type := by
    intro s
    rw [htype]
    exact .map _ (.arguments s sockets)
  intro entry hentry
  simp only [Automation.rules, List.mem_cons, List.not_mem_nil, or_false] at hentry
  rcases hentry with rfl | rfl | rfl | rfl | rfl | rfl | rfl | rfl | rfl
  · exact hstub _ _ fun _ => rfl
  · exact hstub _ _ fun _ => rfl
  · exact hstub _ _ fun _ => rfl
  · exact hstub _ _ fun _ => rfl
  · exact hvalue _ _ fun _ => rfl
  · exact fun s => .pure _
  · exact fun s => .bind (value _ _ _) fun _ => .map _ (indentedBody s _)
  · exact hstub _ _ fun _ => rfl
  · exact hvalue _ _ fun _ => rfl

theorem readsInlets_canvas : ∀ entry ∈ Canvas.rules, entry.2.ReadsInlets entry.1 := by
  intro entry hentry
  rw [List.mem_singleton.1 hentry]
  exact fun s => .map _ (.arguments s ["X", "Y", "RADIUS"])

/-- **Every rule of a vocabulary reads the inlets of its block, and nothing else.** -/
theorem rule_reads (v : Vocabulary) (registry : Registry) {type : String} {rule : Rule}
    (h : (v.generator registry).rules.get? type = some rule) : rule.ReadsInlets type := by
  rcases List.mem_append.1 (rule_mem v registry h) with hmem | hmem
  · exact readsInlets_standard _ hmem
  · rcases List.mem_append.1 hmem with hmem | hmem
    · exact readsInlets_automation _ hmem
    · exact readsInlets_canvas _ hmem

end Rules

end Generation
end VisualBlocks

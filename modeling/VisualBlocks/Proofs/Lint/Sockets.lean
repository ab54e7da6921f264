import VisualBlocks.Lint
import VisualBlocks.Proofs.Generation.Visits

/-!
# Declared sockets and inlets

The check of a workspace goes by the declared types, generation by its rules.  Here the two are
brought together, for the built-in types of each vocabulary.

* **A declared type has a rule of its shape** (`handling_of_declared`): a value if it is declared to
  have one, and a statement otherwise.
* **What a rule reads for its value is a value socket to the check** (`socketFor?_inlet`), whether it
  is declared or a numbered copy.
* **An input that a rule does not read is a numbered copy, or not declared at all**
  (`isNumbered_of_unread`), unless a field goes by its name.
-/

set_option autoImplicit false

namespace VisualBlocks

theorem BlockType.socket?_eq_some {t : BlockType} {name : String} {s : Socket}
    (h : t.socket? name = some s) : s ∈ t.sockets ∧ s.name = name := by
  have hname := List.find?_some h
  exact ⟨List.mem_of_find?_eq_some h, beq_iff_eq.1 hname⟩

namespace Lint

/-! ## Numbered names -/

theorem stem_append_toString (name : String) (h : name.toList.getLast?.any Char.isDigit = false)
    (i : Nat) : stem (name ++ toString i) = name.toList := by
  have hdigits : ∀ c ∈ (toString i).toList.reverse, c.isDigit = true := fun c hc =>
    Text.isDigit_toString (List.mem_reverse.1 hc)
  rw [stem, String.toList_append, List.reverse_append, List.dropWhile_append_of_pos hdigits]
  rw [← List.head?_reverse] at h
  cases hname : name.toList.reverse with
  | nil => rw [List.dropWhile_nil, List.reverse_nil, List.reverse_eq_nil_iff.1 hname]
  | cons c cs =>
    rw [hname, List.head?_cons, Option.any_some] at h
    rw [List.dropWhile_cons_of_neg (by rw [h]; exact Bool.false_ne_true), ← hname,
      List.reverse_reverse]

theorem isNumbered_append_toString (name : String)
    (h : name.toList.getLast?.any Char.isDigit = false) (i : Nat) :
    isNumbered (name ++ toString i) = true := by
  have hpos : 0 < (toString i).length := by
    rw [← String.length_toList, Text.toList_toString]
    exact List.length_pos_iff.2 Nat.toDigits_ne_nil
  rw [isNumbered, stem_append_toString name h, decide_eq_true_eq, String.length_append,
    ← String.length_toList]
  omega

/-- If all sockets of a stem are values, then so is what a numbered input of that stem goes by. -/
theorem exists_socketFor? {t : BlockType} {name : String} (hnumbered : isNumbered name = true)
    (hsome : ∃ s ∈ t.sockets, stem s.name = stem name)
    (hall : ∀ s ∈ t.sockets, stem s.name = stem name → s.isValue = true) :
    ∃ s, socketFor? t name = some s ∧ s.isValue = true := by
  rw [socketFor?, if_pos hnumbered]
  cases hsocket : t.socket? name with
  | some s =>
    obtain ⟨hmem, hname⟩ := BlockType.socket?_eq_some hsocket
    exact ⟨s, Option.some_or, hall s hmem (by rw [hname])⟩
  | none =>
    rw [Option.none_or]
    obtain ⟨s, hs, hstem⟩ := hsome
    have hfound : (t.sockets.find? fun s => stem s.name == stem name).isSome = true :=
      List.find?_isSome.2 ⟨s, hs, beq_iff_eq.2 hstem⟩
    obtain ⟨s, hs⟩ := Option.isSome_iff_exists.1 hfound
    have hstem := List.find?_some hs
    exact ⟨s, hs, hall s (List.mem_of_find?_eq_some hs) (beq_iff_eq.1 hstem)⟩

end Lint

open Generation Lint

/-! ## The declared types -/

theorem get?_of_types {v : Vocabulary} {type : String} {t : BlockType}
    (h : (⟨v.types⟩ : Registry).get? type = some t) : Builtin.all.get? type = some t := by
  have hfamilies : ∀ t ∈ Builtin.canvas, (⟨Builtin.automation⟩ : Registry).get? t.name = none := by
    decide +kernel
  have happend (as bs : List BlockType) : (⟨as ++ bs⟩ : Registry).get? type =
      ((⟨as⟩ : Registry).get? type).or ((⟨bs⟩ : Registry).get? type) := List.find?_append
  rw [Builtin.all, happend, happend]
  cases v with
  | standard =>
    rw [Vocabulary.types] at h
    rw [h, Option.some_or]
  | automation =>
    rw [Vocabulary.types, happend] at h
    rw [← Option.or_assoc, h, Option.some_or]
  | canvas =>
    rw [Vocabulary.types, happend] at h
    cases hstandard : (⟨Builtin.standard⟩ : Registry).get? type with
    | some s => rwa [hstandard] at h
    | none =>
      rw [hstandard, Option.none_or] at h
      obtain ⟨hmem, rfl⟩ := Registry.get?_eq_some h
      rw [hfamilies t hmem, h, Option.none_or, Option.none_or]

/-- **A declared type has a rule of its shape.** -/
theorem handling_of_declared {v : Vocabulary} (registry : Registry) {type : String} {t : BlockType}
    (h : (⟨v.types⟩ : Registry).get? type = some t) :
    (v.generator registry).handling type =
      if t.producesValue then Handling.expression else Handling.statement := by
  have hall : ∀ v : Vocabulary, ∀ t ∈ v.types, (v.generator ⟨[]⟩).handling t.name =
      if t.producesValue then Handling.expression else Handling.statement := by
    intro v
    cases v <;> decide +kernel
  obtain ⟨hmem, rfl⟩ := Registry.get?_eq_some h
  rw [← hall v t hmem]
  cases v <;> rfl

section Inlets

variable {type name : String} {t : BlockType}

theorem sockets_of_controlsIf (h : Builtin.all.get? "controls_if" = some t) :
    t.sockets = [Builtin.value "IF0" [.boolean], Builtin.body "DO0"] := by
  have hsockets : (Builtin.all.get? "controls_if").map BlockType.sockets =
      some [Builtin.value "IF0" [.boolean], Builtin.body "DO0"] := rfl
  rw [h] at hsockets
  exact Option.some.inj hsockets

theorem sockets_of_textJoin (h : Builtin.all.get? "text_join" = some t) :
    t.sockets = [Builtin.value "ADD0" [], Builtin.value "ADD1" []] := by
  have hsockets : (Builtin.all.get? "text_join").map BlockType.sockets =
      some [Builtin.value "ADD0" [], Builtin.value "ADD1" []] := rfl
  rw [h] at hsockets
  exact Option.some.inj hsockets

/-- The declared sockets of a type have different names. -/
theorem socket?_inlet (h : Builtin.all.get? type = some t) {inlet : Inlet} (hinlet : inlet ∈ t.inlets) :
    (t.socket? inlet.socket).bind Socket.inlet? = some inlet := by
  have hall : ∀ t ∈ Builtin.all.types, ∀ inlet ∈ t.inlets,
      (t.socket? inlet.socket).bind Socket.inlet? = some inlet := by decide +kernel
  exact hall t (Registry.get?_eq_some h).1 inlet hinlet

theorem isValue_of_inlet? {s : Socket} (h : s.inlet? = some (.value name)) : s.isValue = true := by
  rw [Socket.inlet?] at h
  rw [Socket.isValue]
  split at h
  · next hkind => rw [hkind]
  · cases h
  · cases h

/-- **What a rule reads for its value is a value socket to the check.** -/
theorem socketFor?_inlet {v : Vocabulary} (h : (⟨v.types⟩ : Registry).get? type = some t)
    {mutation : Table String} (hname : .value name ∈ inlets type mutation) :
    ∃ s, socketFor? t name = some s ∧ s.isValue = true := by
  have htype := get?_of_types h
  rw [inlets.eq_def] at hname
  split at hname
  · have hsockets := sockets_of_controlsIf htype
    obtain ⟨i, rfl⟩ : ∃ i : Nat, name = "IF" ++ toString i := by
      rcases List.mem_append.1 hname with hname | hname
      · obtain ⟨i, -, hname⟩ := List.mem_flatMap.1 hname
        exact ⟨i, by simpa [branchInlets] using hname⟩
      · simp at hname
    have hstem := stem_append_toString "IF" (by decide) i
    refine exists_socketFor? (isNumbered_append_toString _ (by decide) i) ?_ ?_
    · exact ⟨_, hsockets ▸ List.mem_cons_self, by rw [hstem]; decide⟩
    · rw [hsockets, hstem]
      decide
  · have hsockets := sockets_of_textJoin htype
    obtain ⟨i, -, heq⟩ := List.mem_map.1 hname
    obtain rfl := Inlet.value.inj heq
    have hstem := stem_append_toString "ADD" (by decide) i
    refine exists_socketFor? (isNumbered_append_toString _ (by decide) i) ?_ ?_
    · exact ⟨_, hsockets ▸ List.mem_cons_self, by rw [hstem]; decide⟩
    · rw [hsockets, hstem]
      decide
  · rw [htype] at hname
    obtain ⟨s, (hs : t.socket? name = some s), hinlet⟩ :=
      Option.bind_eq_some_iff.1 (socket?_inlet htype hname)
    exact ⟨s, by rw [socketFor?, hs, Option.some_or], isValue_of_inlet? hinlet⟩

/-! ## Inputs that are not read -/

/-- A declared input is read, but for the parts of a joined text. -/
theorem mem_inlets_of_declared (h : Builtin.all.get? type = some t) (hne : type ≠ "text_join")
    (mutation : Table String) {s : Socket} (hs : s ∈ t.sockets) (hfield : s.isField = false) :
    s.name ∈ (inlets type mutation).map Inlet.socket := by
  rw [inlets.eq_def]
  split
  · rw [sockets_of_controlsIf h] at hs
    have hfirst : ∀ inlet ∈ branchInlets 0, inlet.socket ∈
        ((List.range (BlockTree.furtherBranches mutation + 1)).flatMap branchInlets ++
          [Inlet.body "ELSE"]).map Inlet.socket := by
      intro inlet hinlet
      refine List.mem_map_of_mem (List.mem_append_left _ (List.mem_flatMap.2 ⟨0, ?_, hinlet⟩))
      exact List.mem_range.2 (Nat.succ_pos _)
    rcases List.mem_pair.1 hs with rfl | rfl
    · exact hfirst (.value "IF0") (by decide)
    · exact hfirst (.body "DO0") (by decide)
  · exact absurd rfl hne
  · rw [h]
    obtain ⟨inlet, hinlet, hname⟩ : ∃ inlet, s.inlet? = some inlet ∧ inlet.socket = s.name := by
      rw [Socket.isField] at hfield
      rw [Socket.inlet?]
      split at hfield
      · cases hfield
      · cases hkind : s.kind with
        | value check default => exact ⟨_, rfl, rfl⟩
        | statement => exact ⟨_, rfl, rfl⟩
        | field widget => simp_all
    exact hname ▸ List.mem_map_of_mem (List.mem_filterMap.2 ⟨s, hs, hinlet⟩)

/-- **An input that is not read goes by a socket only as a numbered copy**, unless a field goes by
its name. -/
theorem isNumbered_of_unread {v : Vocabulary} (h : (⟨v.types⟩ : Registry).get? type = some t)
    {mutation : Table String} (hunread : name ∉ (inlets type mutation).map Inlet.socket)
    {s : Socket} (hs : socketFor? t name = some s) (hfield : s.isField = false) :
    isNumbered name = true ∧ s ∈ t.sockets ∧ stem s.name = stem name := by
  have htype := get?_of_types h
  rw [socketFor?] at hs
  cases hsocket : t.socket? name with
  | none =>
    rw [hsocket, Option.none_or] at hs
    split at hs
    · next hnumbered =>
      have hstem := List.find?_some hs
      exact ⟨hnumbered, List.mem_of_find?_eq_some hs, beq_iff_eq.1 hstem⟩
    · cases hs
  | some declared =>
    rw [hsocket, Option.some_or] at hs
    obtain rfl := Option.some.inj hs
    obtain ⟨hmem, rfl⟩ := BlockType.socket?_eq_some hsocket
    refine ⟨?_, hmem, rfl⟩
    by_cases hjoin : type = "text_join"
    · subst hjoin
      rw [sockets_of_textJoin htype] at hmem
      rcases List.mem_pair.1 hmem with rfl | rfl <;> decide
    · exact absurd (mem_inlets_of_declared htype hjoin mutation hmem hfield) hunread

end Inlets

end VisualBlocks

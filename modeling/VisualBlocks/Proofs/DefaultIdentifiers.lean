import VisualBlocks.Proofs.Json.Objects
import VisualBlocks.Proofs.Workspace.HandingOut

/-!
# Default identifiers

A block that comes without an identifier gets a default: `b` and a number, such that no block that
has been loaded has it.  A block that is still to come may have it.  So **a file is refused if it
gives an identifier that has been handed out as a default before** (`Preempted`), although the
identifiers that it gives are all different (`lateGiven_refused`), and **it is loaded in all other
cases** (`loaded_unless_preempted`): a default never meets an identifier that was given before it.
-/

set_option autoImplicit false

namespace VisualBlocks
namespace Workspace

variable {taken ids : List String} {asked before after : List (Option String)} {id : String}

/-- The identifiers that are handed out to blocks that come without one. -/
def defaultsOf (taken : List String) : List (Option String) → List String
  | [] => []
  | none :: rest => defaultId taken :: defaultsOf (taken ++ [defaultId taken]) rest
  | some id :: rest => defaultsOf (taken ++ [id]) rest

/-- The identifier is given by a block, and has been handed out to an earlier one that came without
any. -/
def Preempted (asked : List (Option String)) (id : String) : Prop :=
  ∃ before after, asked = before ++ some id :: after ∧ id ∈ defaultsOf [] before

/-- A default identifier is `b` and a number. -/
theorem exists_of_mem_defaultsOf (h : id ∈ defaultsOf taken asked) :
    ∃ n : Nat, id = "b" ++ toString n := by
  fun_induction defaultsOf taken asked with
  | case1 => cases h
  | case2 taken rest ih =>
    rcases List.mem_cons.1 h with rfl | h
    · exact exists_defaultId taken
    · exact ih h
  | case3 taken id rest ih => exact ih h

/-- What stops the handing out is given by a block, and it was there, was given before or was handed
out as a default before. -/
theorem exists_of_handOut_error (h : handOut taken asked = .error id) :
    ∃ before after, asked = before ++ some id :: after ∧
      (id ∈ taken ∨ some id ∈ before ∨ id ∈ defaultsOf taken before) := by
  induction asked generalizing taken with
  | nil => cases h
  | cons a rest ih =>
    rw [handOut] at h
    split at h
    · next htaken =>
      cases h
      cases a with
      | none => exact absurd htaken (defaultId_not_mem taken)
      | some id => exact ⟨[], rest, rfl, .inl htaken⟩
    · cases hrest : handOut (taken ++ [a.getD (defaultId taken)]) rest with
      | ok ids => rw [hrest] at h; cases h
      | error id' =>
        rw [hrest] at h
        cases h
        obtain ⟨before, after, rfl, hwhere⟩ := ih hrest
        refine ⟨a :: before, after, rfl, ?_⟩
        rw [List.mem_append, List.mem_singleton] at hwhere
        cases a with
        | none =>
          rcases hwhere with (htaken | rfl) | hbefore | hdefault
          · exact .inl htaken
          · exact .inr (.inr List.mem_cons_self)
          · exact .inr (.inl (List.mem_cons_of_mem _ hbefore))
          · exact .inr (.inr (List.mem_cons_of_mem _ hdefault))
        | some given =>
          rcases hwhere with (htaken | rfl) | hbefore | hdefault
          · exact .inl htaken
          · exact .inr (.inl List.mem_cons_self)
          · exact .inr (.inl (List.mem_cons_of_mem _ hbefore))
          · exact .inr (.inr hdefault)

/-- If all identifiers are handed out, then none that is given was there or was a default before. -/
theorem not_mem_of_handOut_ok (h : handOut taken (before ++ some id :: after) = .ok ids) :
    id ∉ taken ∧ id ∉ defaultsOf taken before := by
  induction before generalizing taken ids with
  | nil =>
    rw [List.nil_append, handOut] at h
    split at h
    · cases h
    · next hfree => exact ⟨hfree, List.not_mem_nil⟩
  | cons a before ih =>
    rw [List.cons_append, handOut] at h
    split at h
    · cases h
    · cases hrest : handOut (taken ++ [a.getD (defaultId taken)]) (before ++ some id :: after) with
      | error id' => rw [hrest] at h; cases h
      | ok rest =>
        obtain ⟨hnew, hdefault⟩ := ih hrest
        rw [List.mem_append, List.mem_singleton, not_or] at hnew
        refine ⟨hnew.1, ?_⟩
        cases a with
        | none => exact List.not_mem_cons_of_ne_of_not_mem hnew.2 hdefault
        | some given => exact hdefault

/-! ## Blocks of a file -/

theorem heldIn?_eq (slot : Json) :
    heldIn? slot = (slot.get? "block").or (slot.get? "shadow") := by
  rw [heldIn?, connected?]
  split <;> simp_all

theorem proper_of_heldIn? {slot b : Json} (h : slot.Proper) (hb : heldIn? slot = some b) :
    b.Proper := by
  rw [heldIn?_eq, Option.or_eq_some_iff] at hb
  rcases hb with hb | ⟨-, hb⟩
  · exact h.of_get? hb
  · exact h.of_get? hb

theorem proper_of_mem_membersAt {j : Json} {name : String} (h : j.Proper) :
    ((membersAt j name).map (·.1)).Nodup ∧ ∀ m ∈ membersAt j name, m.2.Proper := by
  rw [membersAt]
  cases hmembers : (j.get? name).bind Json.object? with
  | none => exact ⟨List.nodup_nil, List.forall_mem_nil _⟩
  | some members =>
    obtain ⟨k, hk, hobject⟩ := Option.bind_eq_some_iff.1 hmembers
    have hk := h.of_get? hk
    exact hk.of_object? hobject

/-- In a value with one member a name, the blocks are such values. -/
theorem proper_of_mem_loadedBlocks {j : Json} (h : j.Proper) : ∀ b ∈ loadedBlocks j, b.Proper := by
  have hslot {slot : Json} (hlt : sizeOf slot < sizeOf j) (hproper : slot.Proper) :
      ∀ b ∈ loadedIn slot, b.Proper := by
    rw [loadedIn]
    cases hheld : heldIn? slot with
    | none => exact List.forall_mem_nil _
    | some b =>
      have hsmaller := sizeOf_heldIn?_lt hheld
      rw [Option.toList_some, List.flatMap_singleton]
      exact proper_of_mem_loadedBlocks (proper_of_heldIn? hproper hheld)
  rw [loadedBlocks_eq, List.cons_append, List.forall_mem_cons, List.forall_mem_append]
  refine ⟨h, fun b hb => ?_, fun b hb => ?_⟩
  · obtain ⟨m, hm, hb⟩ := List.mem_flatMap.1 hb
    exact hslot (sizeOf_lt_of_mem_membersAt hm) ((proper_of_mem_membersAt h).2 m hm) b hb
  · obtain ⟨slot, hs, hb⟩ := List.mem_flatMap.1 hb
    have hs := Option.mem_toList.1 hs
    exact hslot (Json.sizeOf_get?_lt hs) (h.of_get? hs) b hb
termination_by sizeOf j

/-! ## Loading -/

/-- A workspace with these blocks on the canvas: every block that is loaded has a type, and the
identifiers that are given are different and not empty. -/
structure WellFormed (j : Json) (top : List Json) : Prop where
  proper : j.Proper
  blocks : (j.get? "blocks").bind (·.get? "blocks") = some (.array top)
  typed : ∀ b ∈ top.flatMap loadedBlocks, (b.stringAt? "type").isSome
  ne_empty : ∀ b ∈ top.flatMap loadedBlocks, askedId b ≠ some ""
  distinct : ((top.flatMap loadedBlocks).filterMap askedId).Nodup

variable {j : Json} {top : List Json}

theorem WellFormed.loadable (h : WellFormed j top) :
    ∀ b ∈ top.flatMap loadedBlocks, Loadable b := by
  intro b hb
  obtain ⟨blocks, hblocks, htop⟩ := Option.bind_eq_some_iff.1 h.blocks
  obtain ⟨root, hroot, hloaded⟩ := List.mem_flatMap.1 hb
  have hproper := Json.proper_array_iff.1 ((h.proper.of_get? hblocks).of_get? htop) root hroot
  exact ⟨h.typed b hb, h.ne_empty b hb,
    (proper_of_mem_membersAt (proper_of_mem_loadedBlocks hproper b hloaded)).1⟩

theorem WellFormed.rootsOfJson (h : WellFormed j top) :
    rootsOfJson j = .ok (top.map (Root.ofJson (variableNames j))) := by
  obtain ⟨blocks, hblocks, htop⟩ := Option.bind_eq_some_iff.1 h.blocks
  have hobject : j.object?.isNone = false := by
    cases j <;> first | rfl | cases hblocks
  rw [Workspace.rootsOfJson, hobject, hblocks]
  dsimp only
  rw [htop]
  rfl

/-- The identifiers of a file are handed out one after the other. -/
theorem WellFormed.handsOut (h : WellFormed j top) :
    HandsOut (ofJson j) [] ((top.flatMap loadedBlocks).map askedId) fun w ids => w.ids = ids := by
  rw [ofJson, h.rootsOfJson]
  exact handsOut_roots (w := empty) h.loadable List.nodup_nil

/-- Either all identifiers are handed out, or one that is given comes too late. -/
theorem WellFormed.outcome (h : WellFormed j top) :
    (∃ w, ofJson j = .ok w) ∧ (∀ id, ¬ Preempted ((top.flatMap loadedBlocks).map askedId) id) ∨
    ∃ id, ofJson j = .error (.edit (.duplicateId id)) ∧
      Preempted ((top.flatMap loadedBlocks).map askedId) id := by
  have hrun := h.handsOut
  have hdistinct : (((top.flatMap loadedBlocks).map askedId).filterMap fun id => id).Nodup := by
    rw [List.filterMap_map]
    exact h.distinct
  generalize (top.flatMap loadedBlocks).map askedId = asked at hrun hdistinct ⊢
  rw [HandsOut] at hrun
  cases houtcome : handOut [] asked with
  | ok ids =>
    rw [houtcome] at hrun
    obtain ⟨w, hw, -⟩ := hrun
    refine .inl ⟨⟨w, hw⟩, ?_⟩
    rintro id ⟨before, after, rfl, hmem⟩
    exact (not_mem_of_handOut_ok houtcome).2 hmem
  | error id =>
    rw [houtcome] at hrun
    obtain ⟨before, after, rfl, hwhere⟩ := exists_of_handOut_error houtcome
    refine .inr ⟨id, hrun, before, after, rfl, ?_⟩
    rcases hwhere with hnone | hbefore | hdefault
    · cases hnone
    · -- An identifier is not given twice.
      have hcons : (some id :: after).filterMap (fun id => id) =
          id :: after.filterMap fun id => id := rfl
      rw [List.filterMap_append, hcons, List.nodup_middle, List.nodup_cons] at hdistinct
      refine absurd (List.mem_append_left _ ?_) hdistinct.1
      exact List.mem_filterMap.2 ⟨some id, hbefore, rfl⟩
    · exact hdefault

/-- A file is loaded if no identifier that is given looks like a default. -/
theorem WellFormed.ofJson_of_forall_ne (h : WellFormed j top)
    (hother : ∀ b ∈ top.flatMap loadedBlocks, ∀ n : Nat, askedId b ≠ some ("b" ++ toString n)) :
    ∃ w, ofJson j = .ok w := by
  rcases h.outcome with ⟨hloaded, -⟩ | ⟨id, -, before, after, hsplit, hmem⟩
  · exact hloaded
  · obtain ⟨n, rfl⟩ := exists_of_mem_defaultsOf hmem
    have hgiven : some ("b" ++ toString n) ∈ (top.flatMap loadedBlocks).map askedId := by
      rw [hsplit]
      exact List.mem_append_right _ List.mem_cons_self
    obtain ⟨b, hb, hid⟩ := List.mem_map.1 hgiven
    exact absurd hid (hother b hb n)

/-- **A file is loaded unless an identifier that it gives has been handed out as a default before**,
and then it is refused because of such an identifier. -/
theorem loaded_unless_preempted (h : WellFormed j top) :
    ((∃ w, ofJson j = .ok w) ↔
      ∀ id, ¬ Preempted ((top.flatMap loadedBlocks).map askedId) id) ∧
    ∀ e, ofJson j = .error e → ∃ id, Preempted ((top.flatMap loadedBlocks).map askedId) id ∧
      e = .edit (.duplicateId id) := by
  rcases h.outcome with ⟨⟨w, hw⟩, hnone⟩ | ⟨id, herror, hpreempted⟩
  · refine ⟨iff_of_true ⟨w, hw⟩ hnone, fun e he => ?_⟩
    rw [hw] at he
    cases he
  · refine ⟨iff_of_false ?_ fun hnone => hnone id hpreempted, fun e he => ⟨id, hpreempted, ?_⟩⟩
    · rintro ⟨w, hw⟩
      rw [herror] at hw
      cases hw
    · rw [herror] at he
      exact (Except.error.inj he).symm

/-- The file of a canvas. -/
def canvasFile (top : List Json) : Json := .object [("blocks", .object [("blocks", .array top)])]

/-- A text that comes with an identifier. -/
def namedText (id : String) : Json := .object [("id", .string id), ("type", .string "text")]

/-- A statement that prints a shadow. -/
def printed (text : Json) : Json :=
  .object [
    ("inputs", .object [("TEXT", .object [("shadow", text)])]),
    ("type", .string "text_print")]

/-- Two statements without an identifier, of which each prints a shadow that has one. -/
def printedTwice : List Json := [printed (namedText "b3"), printed (namedText "end")]

theorem loaded_printedTwice : printedTwice.flatMap loadedBlocks =
    [printed (namedText "b3"), namedText "b3", printed (namedText "end"), namedText "end"] := by
  simp [printedTwice, printed, namedText, loadedBlocks_eq, loadedIn, heldIn?_eq, membersAt,
    Json.get?, List.lookup, Json.object?]

theorem wellFormed_printedTwice : WellFormed (canvasFile printedTwice) printedTwice where
  proper := by simp [canvasFile, printedTwice, printed, namedText]
  blocks := rfl
  typed := by rw [loaded_printedTwice]; decide
  ne_empty := by rw [loaded_printedTwice]; decide
  distinct := by rw [loaded_printedTwice]; decide

/-- The second statement gets the identifier `b4`, since `b3` has been given by then. -/
theorem printedTwice_loaded : WellFormed (canvasFile printedTwice) printedTwice ∧
    ∃ w, ofJson (canvasFile printedTwice) = .ok w := by
  refine ⟨wellFormed_printedTwice, (loaded_unless_preempted wellFormed_printedTwice).1.2 ?_⟩
  rw [loaded_printedTwice]
  rintro id ⟨before, after, hsplit, hmem⟩
  have hwhere : before = [none] ∧ id = "b3" ∨ before = [none, some "b3", none] ∧ id = "end" := by
    have hasked : [none, some "b3", none, some "end"] = before ++ some id :: after := hsplit
    simp only [List.cons_eq_append_iff, List.nil_eq_append_iff, reduceCtorEq, List.cons.injEq,
      Option.some.injEq, false_and, and_false, or_false, false_or, exists_const] at hasked
    obtain ⟨_, rfl, ⟨rfl, rfl, -⟩ | ⟨_, rfl, _, rfl, rfl, rfl, -⟩⟩ := hasked
    · exact .inl ⟨rfl, rfl⟩
    · exact .inr ⟨rfl, rfl⟩
  rcases hwhere with ⟨rfl, rfl⟩ | ⟨rfl, rfl⟩
  · revert hmem
    decide
  · revert hmem
    decide

/-- A text without an identifier, and one with the identifier `b1`. -/
def lateGiven : List Json := [.object [("type", .string "text")], namedText "b1"]

theorem loaded_lateGiven : lateGiven.flatMap loadedBlocks = lateGiven := by
  simp [lateGiven, namedText, loadedBlocks_eq, membersAt, Json.get?, List.lookup]

/-- **An identifier that is given can come too late.** -/
theorem lateGiven_refused : WellFormed (canvasFile lateGiven) lateGiven ∧
    ofJson (canvasFile lateGiven) = .error (.edit (.duplicateId "b1")) := by
  have hwellFormed : WellFormed (canvasFile lateGiven) lateGiven := by
    refine ⟨?_, rfl, ?_, ?_, ?_⟩
    · simp [canvasFile, lateGiven, namedText]
    all_goals
      rw [loaded_lateGiven]
      decide
  have hrun := hwellFormed.handsOut
  rw [loaded_lateGiven] at hrun
  have herror : handOut [] (lateGiven.map askedId) = .error "b1" := by
    decide
  rw [HandsOut, herror] at hrun
  exact ⟨hwellFormed, hrun⟩

end Workspace
end VisualBlocks

import VisualBlocks.Proofs.Workspace.JsonForm

/-!
# Loading is faithful

A canvas whose shapes are described by texts under keys of their own (`ExtraTexts`) comes back from
its file in JSON as it was drawn (`ofJson_faithful`).  The loader cannot fail on it; every block
stands in the workspace with its type, its texts, its links and its parent, and there is no other; of
a block over a shadow only the block is there, with what hangs on it; and the blocks without a parent
are those of the canvas, in reading order.

Three keys are left out, since the loader writes the state under them under other keys.  A place comes
back as it was only if a double can hold it: the loader reads it as one.
-/

set_option autoImplicit false

namespace VisualBlocks
namespace Workspace

/-- A shape described by texts, none of them under a key that has another name in the workspace. -/
structure ExtraTexts where
  texts : List (String × String)
  other : ∀ t ∈ texts, t.1 ∉ ["elseIfCount", "hasElse", "itemCount"]

namespace ExtraTexts

/-- The members for the shape in JSON. -/
def members (shape : ExtraTexts) : List (String × Json) :=
  (Table.ofList shape.texts).entries.map fun t => (t.1, .string t.2)

/-- The table for the shape in the workspace. -/
def table (shape : ExtraTexts) : Table String := .ofList shape.texts

end ExtraTexts

theorem mutationKey_of_other {key : String}
    (h : key ∉ ["elseIfCount", "hasElse", "itemCount"]) : mutationKey key = key := by
  simp only [List.mem_cons, List.not_mem_nil, or_false, not_or] at h
  unfold mutationKey
  split <;> simp_all

theorem jsonTexts_members (fields : List (String × String)) (shape : ExtraTexts) :
    jsonTexts ExtraTexts.members fields shape =
      fieldParts fields ++ mutationParts (Table.ofList shape.texts).entries := by
  rw [jsonTexts, ExtraTexts.members, List.map_map]
  refine congrArg (fieldParts fields ++ ·) (List.map_congr_left fun t ht => ?_)
  rw [Function.comp_apply, mutationKey_of_other (shape.other t (Table.mem_ofList ht))]
  rfl

/-- **Loading is faithful**: the blocks are those of the canvas, and the ones without a parent come
in reading order. -/
theorem ofJson_faithful (canvas : List (Rooted ExtraTexts)) (hlegal : Legal canvas)
    (hplaces : ∀ r ∈ canvas, Number.IsExact r.x ∧ Number.IsExact r.y) :
    ∃ w, ofJson (jsonForm ExtraTexts.members canvas) = .ok w ∧
      w.blocks.Perm ((placedOn canvas).map (Placed.block ExtraTexts.table)) ∧
      ∃ order : List (Rooted ExtraTexts × ℕ), order.Perm canvas.zipIdx ∧
        order.Pairwise Precedes ∧ w.top = order.map fun r => r.1.sketch.id := by
  have htexts : Texts (jsonTexts ExtraTexts.members) ExtraTexts.table := by
    have htable : ExtraTexts.table = fun shape =>
        Table.ofList (Table.ofList shape.texts).entries :=
      funext fun shape => (Table.ofList_entries_ofList shape.texts).symm
    rw [htable]
    exact texts_fields_mutations jsonTexts_members
  have hloaded := ofJson_jsonForm htexts hlegal
  rw [map_asRead hplaces] at hloaded
  obtain ⟨order, hperm, hsorted, htop⟩ := exists_order ExtraTexts.table canvas
  exact ⟨_, hloaded, perm_blocks_sorted _ hlegal, order, hperm, hsorted,
    (top_sorted _ canvas).trans htop⟩

/-- A loop that repeats a number of times that stands over a shadow, around a block that reads a
shadow and has another one below it; and before it a block of its own. -/
def drawnCanvas : List (Rooted ExtraTexts) :=
  let plain : ExtraTexts := ⟨[], nofun⟩
  let number (id value : String) : Sketch ExtraTexts :=
    .block id "math_number" [("NUM", value)] plain [] none
  let print (id : String) (text : Held ExtraTexts) (next : Option (Held ExtraTexts)) :
      Sketch ExtraTexts := .block id "text_print" [] plain [("TEXT", text)] next
  [⟨.block "loop" "controls_repeat_ext" [] plain
      [("TIMES", .both (number "times" "3") (number "hidden" "10")),
        ("DO", .real (print "one" (.shadow (number "stub" "1"))
          (some (.real (print "two" (.real (number "other" "2")) none)))))] none, 0, 20⟩,
    ⟨.block "call" "procedures_callnoreturn" [] ⟨[("name", "start")], by decide⟩ [] none, -5, 0⟩]

/-- The block under the number is not loaded. -/
theorem drawnCanvas_loads : Legal drawnCanvas ∧
    ∃ w, ofJson (jsonForm ExtraTexts.members drawnCanvas) = .ok w ∧
      (w.blocks.map fun b => (b.id, b.shadow, b.parent.map (·.id))).Perm
        [("loop", false, none), ("times", false, some "loop"), ("one", false, some "loop"),
          ("stub", true, some "one"), ("two", false, some "one"), ("other", false, some "two"),
          ("call", false, none)] := by
  have hlegal : Legal drawnCanvas := by decide
  obtain ⟨w, hw, hblocks, -⟩ := ofJson_faithful drawnCanvas hlegal fun r hr => by
    simp only [drawnCanvas, List.mem_cons, List.not_mem_nil, or_false] at hr
    rcases hr with rfl | rfl
    · exact ⟨Number.isExact_of_lt (by decide), Number.isExact_of_lt (by decide)⟩
    · exact ⟨Number.isExact_of_lt (by decide), Number.isExact_of_lt (by decide)⟩
  exact ⟨hlegal, w, hw, hblocks.map _⟩

end Workspace
end VisualBlocks

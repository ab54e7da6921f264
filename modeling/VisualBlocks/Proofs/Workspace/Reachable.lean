import VisualBlocks.Proofs.Workspace.History

/-!
# Workspaces that can be reached

A workspace is `Built` if the operations make it from the empty one, and `Reachable` if it may also
come from a file.  Each step is an edit and so is each step of loading, so **every reachable
workspace is linked** (`Reachable.linked`).
-/

set_option autoImplicit false

namespace VisualBlocks
namespace Workspace

/-- One operation on a workspace. -/
inductive Step (w w' : Workspace) : Prop
  | add (id type : String) (h : w.add id type = .ok w')
  | setField (id name value : String) (h : w.setField id name value = .ok w')
  | setMutation (id key value : String) (h : w.setMutation id key value = .ok w')
  | setPosition (id : String) (x y : Int) (h : w.setPosition id x y = .ok w')
  | connectInput (parent name child : String) (h : w.connectInput parent name child = .ok w')
  | connectNext (block child : String) (h : w.connectNext block child = .ok w')
  | disconnect (id : String) (h : w.disconnect id = .ok w')
  | remove (id : String) (h : w.remove id = .ok w')

/-- What the operations make from the empty workspace. -/
inductive Built : Workspace → Prop
  | empty : Built empty
  | step {w w' : Workspace} (h : Built w) (hstep : Step w w') : Built w'

/-- What the operations make from the empty workspace or from one that has been loaded. -/
inductive Reachable : Workspace → Prop
  | empty : Reachable empty
  | json {text : String} {w : Workspace} (h : ofJsonText text = .ok w) : Reachable w
  | xml {text : String} {w : Workspace} (h : ofXmlText text = .ok w) : Reachable w
  | step {w w' : Workspace} (h : Reachable w) (hstep : Step w w') : Reachable w'

theorem Step.edit {w w' : Workspace} (h : Step w w') : ∃ e : Edit, e.apply w = .ok w' := by
  cases h with
  | add id type hw => exact ⟨.add id type, hw⟩
  | setField id name value hw => exact ⟨.setField id name value, hw⟩
  | setMutation id key value hw => exact ⟨.setMutation id key value, hw⟩
  | setPosition id x y hw => exact ⟨.setPosition id x y, hw⟩
  | connectInput parent name child hw => exact ⟨.connectInput parent name child, hw⟩
  | connectNext block child hw => exact ⟨.connectNext block child, hw⟩
  | disconnect id hw => exact ⟨.disconnect id, hw⟩
  | remove id hw => exact ⟨.remove id, hw⟩

theorem Linked.step {w w' : Workspace} (h : Linked w) (hstep : Step w w') : Linked w' := by
  obtain ⟨e, he⟩ := hstep.edit
  exact h.edit he

theorem Built.linked {w : Workspace} (h : Built w) : Linked w := by
  induction h with
  | empty => exact linked_empty
  | step _ hstep ih => exact ih.step hstep

/-- **Every reachable workspace is linked.** -/
theorem Reachable.linked {w : Workspace} (h : Reachable w) : Linked w := by
  induction h with
  | empty => exact linked_empty
  | json h => exact linked_empty.leads (leads_ofJsonText h)
  | xml h => exact linked_empty.leads (leads_ofXmlText h)
  | step _ hstep ih => exact ih.step hstep

/-- Every reachable workspace has a history. -/
theorem Reachable.exists_edits {w : Workspace} (h : Reachable w) :
    ∃ edits : List Edit, (Ledger.ofEdits edits).workspace = w := by
  have hleads : Leads Workspace.empty w := by
    induction h with
    | empty => exact .refl _
    | json h => exact leads_ofJsonText h
    | xml h => exact leads_ofXmlText h
    | step _ hstep ih =>
      obtain ⟨e, he⟩ := hstep.edit
      exact ih.trans (.edit he)
  obtain ⟨edits, hedits⟩ := hleads
  exact ⟨edits, (Ledger.workspace_foldl edits .start).trans hedits⟩

/-- The blocks of a reachable workspace have names, and their inputs are ordered. -/
theorem Reachable.filed {w : Workspace} (h : Reachable w) : Filed w := by
  obtain ⟨edits, rfl⟩ := h.exists_edits
  exact (Ledger.kept_ofEdits edits).filed

end Workspace
end VisualBlocks

import VisualBlocks.Proofs.Workspace.Slots
import VisualBlocks.Workspace.FromJson
import VisualBlocks.Workspace.FromXml

/-!
# Histories of workspaces

An `Edit` is one call of an operation on a workspace, with its arguments.  A call that is refused
leaves everything as it is, so edits can be performed one after the other, whatever comes of each of
them.  A `Ledger` keeps, beside the workspace, the number under which each block was created: the
first block is number one, and a block that is created again after it was deleted gets a new number.

* **Whatever is done, the blocks form trees, and along the list of blocks the numbers rise**
  (`Ledger.step`, `Ledger.run`).
* **Loading a file is such a history** (`exists_edits_of_json`, `exists_edits_of_xml`): beside the
  operations it needs only the mark of a shadow.
-/

set_option autoImplicit false

namespace VisualBlocks
namespace Workspace

/-- One call of an operation.  The mark of a shadow is set by loading only. -/
inductive Edit where
  | add (id type : String)
  | mark (id : String) (shadow : Bool)
  | setField (id name value : String)
  | setMutation (id key value : String)
  | setPosition (id : String) (x y : Int)
  | connectInput (parent name child : String)
  | connectNext (block child : String)
  | disconnect (id : String)
  | remove (id : String)
deriving Repr, DecidableEq

/-- What comes of the call. -/
def Edit.apply (w : Workspace) : Edit → Except EditError Workspace
  | .add id type => w.add id type
  | .mark id shadow => w.change id fun b => { b with shadow }
  | .setField id name value => w.setField id name value
  | .setMutation id key value => w.setMutation id key value
  | .setPosition id x y => w.setPosition id x y
  | .connectInput parent name child => w.connectInput parent name child
  | .connectNext block child => w.connectNext block child
  | .disconnect id => w.disconnect id
  | .remove id => w.remove id

/-- The workspace after the call, which is the one before it if the call is refused. -/
def perform (w : Workspace) (e : Edit) : Workspace :=
  match e.apply w with
  | .ok w' => w'
  | .error _ => w

variable {w w' : Workspace}

theorem perform_of_ok {e : Edit} (h : e.apply w = .ok w') : w.perform e = w' := by
  rw [perform, h]

/-! ## What an edit keeps -/

/-- **Each operation keeps a workspace linked.** -/
theorem Linked.edit (h : Linked w) {e : Edit} (he : e.apply w = .ok w') : Linked w' := by
  cases e with
  | add id type => exact h.add he
  | mark id shadow => exact h.change he (fun _ => rfl) (fun _ => rfl) fun _ => hanging_congr rfl rfl
  | setField id name value => exact h.setField he
  | setMutation id key value => exact h.setMutation he
  | setPosition id x y => exact h.setPosition he
  | connectInput parent name child => exact h.connectInput he
  | connectNext block child => exact h.connectNext he
  | disconnect id => exact h.disconnect he
  | remove id => exact h.remove he

theorem Linked.perform (h : Linked w) (e : Edit) : Linked (w.perform e) := by
  rw [Workspace.perform]
  split
  · next he => exact h.edit he
  · exact h

/-- **Each operation keeps a workspace filed.** -/
theorem Filed.edit (h : Filed w) {e : Edit} (he : e.apply w = .ok w') : Filed w' := by
  cases e with
  | add id type => exact h.add he
  | mark id shadow => exact h.change he (fun _ => rfl) fun _ hb => hb
  | setField id name value => exact h.change he (fun _ => rfl) fun _ hb => hb
  | setMutation id key value => exact h.change he (fun _ => rfl) fun _ hb => hb
  | setPosition id x y => exact h.change he (fun _ => rfl) fun _ hb => hb
  | connectInput parent name child => exact h.connectInput he
  | connectNext block child => exact h.connectNext he
  | disconnect id => exact h.disconnect he
  | remove id => exact h.remove he

/-! ## The list of identifiers -/

theorem ids_change {id : String} {f : Block → Block} (h : w.change id f = .ok w')
    (hf : ∀ b, (f b).id = b.id) : w'.ids = w.ids := by
  obtain ⟨b, -, rfl⟩ := change_eq_ok h
  exact ids_modify w id hf

theorem ids_add {id type : String} (h : w.add id type = .ok w') : w'.ids = w.ids ++ [id] := by
  obtain ⟨-, rfl⟩ := add_eq_ok h
  simp [ids, Block.fresh]

theorem ids_connectInput {parent name child : String}
    (h : w.connectInput parent name child = .ok w') : w'.ids = w.ids := by
  obtain ⟨p, -, -, rfl⟩ := connectInput_eq_ok h
  rw [ids_modify, ids_modify]
  all_goals exact fun _ => rfl

theorem ids_connectNext {parent child : String} (h : w.connectNext parent child = .ok w') :
    w'.ids = w.ids := by
  obtain ⟨p, -, -, rfl⟩ := connectNext_eq_ok h
  rw [ids_modify, ids_modify]
  all_goals exact fun _ => rfl

theorem ids_disconnect {id : String} (h : w.disconnect id = .ok w') : w'.ids = w.ids := by
  obtain ⟨b, -, ⟨-, rfl⟩ | ⟨p, -, rfl⟩⟩ := disconnect_eq_ok h
  · rfl
  · rw [ids_modify _ _ fun b => taken_id b p.link id, ids_modify]
    exact fun _ => rfl

/-- Only a new block makes the list of identifiers longer, and no edit changes their order. -/
theorem ids_edit {e : Edit} (he : e.apply w = .ok w') :
    (∃ id type, e = .add id type ∧ w'.ids = w.ids ++ [id]) ∨
      (∀ id type, e ≠ .add id type) ∧ w'.ids.Sublist w.ids := by
  cases e with
  | add id type => exact .inl ⟨id, type, rfl, ids_add he⟩
  | mark id shadow => exact .inr ⟨nofun, by rw [ids_change he fun _ => rfl]⟩
  | setField id name value => exact .inr ⟨nofun, by rw [ids_change he fun _ => rfl]⟩
  | setMutation id key value => exact .inr ⟨nofun, by rw [ids_change he fun _ => rfl]⟩
  | setPosition id x y => exact .inr ⟨nofun, by rw [ids_change he fun _ => rfl]⟩
  | connectInput parent name child => exact .inr ⟨nofun, by rw [ids_connectInput he]⟩
  | connectNext block child => exact .inr ⟨nofun, by rw [ids_connectNext he]⟩
  | disconnect id => exact .inr ⟨nofun, by rw [ids_disconnect he]⟩
  | remove id =>
    obtain ⟨u, gone, hdisconnect, -, rfl⟩ := remove_eq_ok he
    rw [← ids_disconnect hdisconnect]
    exact .inr ⟨nofun, List.filter_sublist.map _⟩

/-! ## Ledgers -/

/-- A workspace, how many blocks have been created in it, and the number of each block. -/
structure Ledger where
  workspace : Workspace
  created : Nat
  number : String → Nat

namespace Ledger

variable {l : Ledger} {e : Edit}

/-- The ledger of a new workspace. -/
def start : Ledger := ⟨.empty, 0, fun _ => 0⟩

/-- Writes down what an edit has made: a new block gets the next number. -/
def note (l : Ledger) (w : Workspace) : Edit → Ledger
  | .add id _ => ⟨w, l.created + 1, Function.update l.number id (l.created + 1)⟩
  | _ => { l with workspace := w }

/-- The ledger after a call. -/
def perform (l : Ledger) (e : Edit) : Ledger :=
  match e.apply l.workspace with
  | .ok w => l.note w e
  | .error _ => l

/-- The ledger after calls on a new workspace, one after the other. -/
def ofEdits (edits : List Edit) : Ledger := edits.foldl perform start

theorem note_workspace (l : Ledger) (w : Workspace) (e : Edit) : (l.note w e).workspace = w := by
  cases e <;> rfl

theorem workspace_perform (l : Ledger) (e : Edit) :
    (l.perform e).workspace = l.workspace.perform e := by
  rw [perform, Workspace.perform]
  split
  · exact note_workspace l _ e
  · rfl

/-- The ledger is about the workspace that the edits make. -/
theorem workspace_foldl (edits : List Edit) (l : Ledger) :
    (edits.foldl perform l).workspace = edits.foldl Workspace.perform l.workspace := by
  induction edits generalizing l with
  | nil => rfl
  | cons e es ih => rw [List.foldl_cons, List.foldl_cons, ih, workspace_perform]

/-- The workspace is linked and filed, and the numbers rise along the list of its blocks. -/
structure Kept (l : Ledger) : Prop where
  linked : Linked l.workspace
  filed : Filed l.workspace
  rising : (l.workspace.ids.map l.number).Pairwise (· < ·)
  bounded : ∀ id ∈ l.workspace.ids, l.number id ≤ l.created

theorem kept_start : Kept start := ⟨linked_empty, filed_empty, .nil, nofun⟩

/-- The number of a new block is above all others. -/
theorem Kept.note_add (h : Kept l) {id type : String} {w : Workspace} (hlinked : Linked w)
    (hfiled : Filed w) (hids : w.ids = l.workspace.ids ++ [id]) : Kept (l.note w (.add id type)) := by
  have hfresh : id ∉ l.workspace.ids := by
    have hnodup := hlinked.nodup
    rw [hids, List.nodup_append] at hnodup
    exact fun hmem => hnodup.2.2 id hmem id List.mem_cons_self rfl
  have hold : ∀ other ∈ l.workspace.ids,
      Function.update l.number id (l.created + 1) other = l.number other := by
    intro other hother
    refine Function.update_of_ne ?_ _ _
    rintro rfl
    exact hfresh hother
  have hmap : w.ids.map (Function.update l.number id (l.created + 1)) =
      l.workspace.ids.map l.number ++ [l.created + 1] := by
    simp [hids, List.map_congr_left hold]
  refine ⟨hlinked, hfiled, ?_, fun other hother => ?_⟩
  · show (w.ids.map (Function.update l.number id (l.created + 1))).Pairwise (· < ·)
    rw [hmap, List.pairwise_append]
    refine ⟨h.rising, List.pairwise_singleton _ _, fun n hn m hm => ?_⟩
    obtain ⟨other, hother, rfl⟩ := List.mem_map.1 hn
    obtain rfl := List.mem_singleton.1 hm
    exact Nat.lt_succ_of_le (h.bounded other hother)
  · show Function.update l.number id (l.created + 1) other ≤ l.created + 1
    have hother : other ∈ w.ids := hother
    rw [hids, List.mem_append, List.mem_singleton] at hother
    rcases hother with hother | rfl
    · rw [hold other hother]
      exact Nat.le_succ_of_le (h.bounded other hother)
    · rw [Function.update_self]

/-- **A call keeps the trees and the numbers**, whether it is refused or not. -/
theorem Kept.perform (h : Kept l) (e : Edit) : Kept (l.perform e) := by
  rw [Ledger.perform]
  split
  · next w he =>
    have hlinked := h.linked.edit he
    have hfiled := h.filed.edit he
    rcases ids_edit he with ⟨id, type, rfl, hids⟩ | ⟨hother, hsub⟩
    · exact h.note_add hlinked hfiled hids
    · have hnote : l.note w e = { l with workspace := w } := by
        cases e with
        | add id type => exact absurd rfl (hother id type)
        | _ => rfl
      rw [hnote]
      exact ⟨hlinked, hfiled, h.rising.sublist (hsub.map _),
        fun id hid => h.bounded id (hsub.subset hid)⟩
  · exact h

theorem kept_ofEdits (edits : List Edit) : Kept (ofEdits edits) := by
  rw [ofEdits]
  suffices ∀ l : Ledger, Kept l → Kept (edits.foldl Ledger.perform l) from this start kept_start
  induction edits with
  | nil => exact fun l h => h
  | cons e es ih => exact fun l h => ih _ (h.perform e)

end Ledger

/-! ## Loading -/

/-- Some history leads from one workspace to another. -/
def Leads (w w' : Workspace) : Prop := ∃ edits : List Edit, edits.foldl perform w = w'

theorem Leads.refl (w : Workspace) : Leads w w := ⟨[], rfl⟩

theorem Leads.trans {u : Workspace} (h : Leads w u) (h' : Leads u w') : Leads w w' := by
  obtain ⟨es, rfl⟩ := h
  obtain ⟨es', rfl⟩ := h'
  exact ⟨es ++ es', List.foldl_append⟩

theorem Leads.edit {e : Edit} (he : e.apply w = .ok w') : Leads w w' := ⟨[e], perform_of_ok he⟩

theorem Linked.leads (h : Linked w) (hleads : Leads w w') : Linked w' := by
  obtain ⟨edits, rfl⟩ := hleads
  induction edits generalizing w with
  | nil => exact h
  | cons e es ih => exact ih (h.perform e)

theorem edited_eq_ok {α : Type} {x : Except EditError α} {a : α} (h : edited x = .ok a) :
    x = .ok a := by
  cases x with
  | ok b => exact congrArg _ (Except.ok.inj h)
  | error e => cases h

mutual

/-- **Loading a block is a history.** -/
theorem Saved.leads {id : String} :
    ∀ (s : Saved) {w w' : Workspace}, s.load w = .ok (id, w') → Leads w w'
  | .fault e, w, w', hload => by
    rw [Saved.load] at hload
    cases hload
  | .block type given shadow parts, w, w', hload => by
    rw [Saved.load] at hload
    obtain ⟨u, hadd, hload⟩ := bind_eq_ok hload
    obtain ⟨u', hparts, heq⟩ := bind_eq_ok hload
    obtain rfl : u' = w' := congrArg Prod.snd (Except.ok.inj heq)
    have hadded := edited_eq_ok hadd
    have hmember : given.getD w.freshId ∈ u.ids := by
      rw [ids_add hadded]
      exact List.mem_append_right _ List.mem_cons_self
    have hmarked := Leads.edit (e := .mark (given.getD w.freshId) shadow) (change_of_mem hmember _)
    exact ((Leads.edit (e := .add _ type) hadded).trans hmarked).trans (parts_lead parts hparts)

theorem parts_lead {id : String} :
    ∀ (parts : List Part) {w w' : Workspace}, loadParts w id parts = .ok w' → Leads w w'
  | [], w, w', hload => by
    rw [loadParts] at hload
    exact Except.ok.inj hload ▸ .refl w
  | p :: rest, w, w', hload => by
    rw [loadParts] at hload
    obtain ⟨u, hpart, hload⟩ := bind_eq_ok hload
    exact (Part.leads p hpart).trans (parts_lead rest hload)

theorem Part.leads {id : String} :
    ∀ (p : Part) {w w' : Workspace}, p.load w id = .ok w' → Leads w w'
  | .field name text, w, w', hload => by
    rw [Part.load] at hload
    exact .edit (e := .setField id name text) (edited_eq_ok hload)
  | .mutation key text, w, w', hload => by
    rw [Part.load] at hload
    exact .edit (e := .setMutation id key text) (edited_eq_ok hload)
  | .input name child, w, w', hload => by
    rw [Part.load] at hload
    obtain ⟨⟨childId, u⟩, hchild, hload⟩ := bind_eq_ok hload
    exact (Saved.leads child hchild).trans
      (.edit (e := .connectInput id name childId) (edited_eq_ok hload))
  | .next child, w, w', hload => by
    rw [Part.load] at hload
    obtain ⟨⟨childId, u⟩, hchild, hload⟩ := bind_eq_ok hload
    exact (Saved.leads child hchild).trans (.edit (e := .connectNext id childId) (edited_eq_ok hload))
  | .fault e, w, w', hload => by
    rw [Part.load] at hload
    cases hload

end

theorem Root.leads {r : Root} (hload : r.load w = .ok w') : Leads w w' := by
  rw [Root.load] at hload
  obtain ⟨⟨id, u⟩, hblock, hload⟩ := bind_eq_ok hload
  exact (Saved.leads r.block hblock).trans (.edit (e := .setPosition id r.x r.y) (edited_eq_ok hload))

theorem roots_lead {roots : List Root} (hload : roots.foldlM Root.load w = .ok w') :
    Leads w w' := by
  induction roots generalizing w with
  | nil => exact Except.ok.inj hload ▸ .refl w
  | cons r rs ih =>
    rw [List.foldlM_cons] at hload
    obtain ⟨u, hroot, hload⟩ := bind_eq_ok hload
    exact (Root.leads hroot).trans (ih hload)

theorem leads_ofJson {j : Json} (h : ofJson j = .ok w) : Leads empty w := by
  rw [ofJson] at h
  obtain ⟨roots, -, hroots⟩ := bind_eq_ok h
  exact roots_lead hroots

theorem leads_ofJsonText {text : String} (h : ofJsonText text = .ok w) : Leads empty w := by
  rw [ofJsonText] at h
  split at h
  · cases h
  · exact leads_ofJson h

theorem leads_ofXmlText {text : String} (h : ofXmlText text = .ok w) : Leads empty w := by
  rw [ofXmlText] at h
  split at h
  · cases h
  · exact roots_lead h

/-! ## Trees -/

/-- What holds of a ledger after any history. -/
structure Ledger.Orderly (l : Ledger) : Prop where
  /-- The blocks form trees. -/
  shaped : l.workspace.Shaped
  /-- The list of the blocks is in the order of their numbers, and no two blocks share a number. -/
  rising : (l.workspace.ids.map l.number).Pairwise (· < ·)
  /-- A block that is there can be taken off, so deletion never stops halfway. -/
  released (id : String) : id ∈ l.workspace.ids → ∃ w, l.workspace.disconnect id = .ok w

/-- **Whatever is done to a workspace, its blocks form trees.**  This holds after all calls of the
operations, in any order and with refused ones among them, and so of all that is loaded: a loaded
workspace has a history of its own. -/
theorem ledger_orderly :
    (∀ edits : List Edit, (Ledger.ofEdits edits).Orderly ∧
      (Ledger.ofEdits edits).workspace = edits.foldl perform empty) ∧
    ∀ w : Workspace, ((∃ j, ofJson j = .ok w) ∨ ∃ text, ofXmlText text = .ok w) →
      ∃ edits : List Edit, (Ledger.ofEdits edits).workspace = w := by
  refine ⟨fun edits => ⟨?_, Ledger.workspace_foldl edits .start⟩, fun w hload => ?_⟩
  · have h := Ledger.kept_ofEdits edits
    exact ⟨h.linked.shaped h.filed, h.rising, fun id hid => h.linked.exists_disconnect hid⟩
  · have hleads : Leads empty w := by
      rcases hload with ⟨j, hj⟩ | ⟨text, htext⟩
      · exact leads_ofJson hj
      · exact leads_ofXmlText htext
    obtain ⟨edits, hedits⟩ := hleads
    exact ⟨edits, (Ledger.workspace_foldl edits .start).trans hedits⟩

/-- A saved block with a shadow below it that has no identifier. -/
def savedChain : Json :=
  .object [("blocks", .array [.object [("type", .string "text_print"), ("id", .string "print"),
    ("next", .object [("shadow", .object [("type", .string "text_print")])])]])]

theorem savedChain_orderly :
    ∃ edits : List Edit, (Ledger.ofEdits edits).workspace =
      ⟨[{ Block.fresh "print" "text_print" with next := some "b2" },
        { Block.fresh "b2" "text_print" with shadow := true, parent := some ⟨"print", .next⟩ }]⟩ :=
  ledger_orderly.2 _ (.inl ⟨savedChain, by decide +kernel⟩)

end Workspace
end VisualBlocks

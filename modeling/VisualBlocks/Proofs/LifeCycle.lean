import Mathlib.Data.List.Induction
import VisualBlocks.Adapter
import VisualBlocks.Vocabulary

/-!
# The life of an adapter

An adapter can be called in any order: observers may come before there is an editor or after it is
gone, an editor may refuse its toolbox and another be tried.  Whatever the order, its state, its
editor and its observers keep in step (`life_cycle`):

* it holds an editor exactly while it is mounted;
* one editor is injected at most, is held with the edits made to it, and is closed once, by the
  disposal;
* a disposed adapter refuses all that comes;
* an event has text delivered exactly if it changes blocks and the adapter is mounted, and the text
  is what the generator gives for the editor as it is then, for every observer so far.

The first three are one invariant.  There are four phases in a life (`Phase`), each fixes the state,
the editor, how many editors have been injected and which have been closed, and every call leads
from a phase to a phase (`Phase.call`).
-/

set_option autoImplicit false

namespace VisualBlocks
namespace Adapter

variable {ε φ : Type}

/-! ## Calls and their answers -/

/-- A call on an adapter. -/
inductive Call (ε : Type) where
  | mount (e : ε)
  | subscribe (observer : Nat)
  | edit (f : ε → ε)
  | handle (event : ChangeEvent)
  | dispose

/-- What a call answers, and what it has others do: the observers of a delivery are called, and
an editor is closed. -/
inductive Answer (ε φ : Type) where
  | mounted (needed : Except (MountError φ) Bool)
  | subscribed
  | edited (present : Bool)
  | handled (delivery : Option Delivery)
  | disposed (closed : Option ε) (needed : Bool)
deriving DecidableEq

namespace Call

/-- The observer that a call adds. -/
def observer? : Call ε → Option Nat
  | subscribe observer => some observer
  | _ => none

/-- What a call makes of the editor that is held. -/
def alter : Call ε → ε → ε
  | edit f => f
  | _ => id

/-- What a disposed adapter answers. -/
def refusal : Call ε → Answer ε φ
  | mount _ => .mounted (.error .disposed)
  | subscribe _ => .subscribed
  | edit _ => .edited false
  | handle _ => .handled none
  | dispose => .disposed none false

end Call

namespace Answer

/-- Has an editor been injected? -/
def injected : Answer ε φ → Bool
  | mounted (.ok needed) => needed
  | _ => false

/-- The editor that has been closed. -/
def closed? : Answer ε φ → Option ε
  | disposed closed _ => closed
  | _ => none

/-- What has been delivered. -/
def delivery? : Answer ε φ → Option Delivery
  | handled delivery => delivery
  | _ => none

end Answer

/-- The observers that calls have added, in turn. -/
def subscribers (calls : List (Call ε)) : List Nat := calls.filterMap Call.observer?

/-- How many editors have been injected. -/
def injections (given : List (Answer ε φ)) : Nat := given.countP Answer.injected

/-- The editors that have been closed, as they were then. -/
def closings (given : List (Answer ε φ)) : List ε := given.filterMap Answer.closed?

/-- What has been delivered, in turn. -/
def deliveries (given : List (Answer ε φ)) : List Delivery := given.filterMap Answer.delivery?

theorem filterMap_concat {α β : Type} (f : α → Option β) (l : List α) (x : α) :
    (l ++ [x]).filterMap f = l.filterMap f ++ (f x).toList := by
  rw [List.filterMap_append]
  cases hx : f x <;> simp [hx]

theorem injections_concat (given : List (Answer ε φ)) (answer : Answer ε φ) :
    injections (given ++ [answer]) = injections given + answer.injected.toNat := by
  cases hinjected : answer.injected <;> simp [injections, hinjected]

section

variable [EmbeddedEditor ε φ]

/-- Makes a call. -/
def call (a : Adapter ε) : Call ε → Answer ε φ × Adapter ε
  | .mount e =>
    match a.mount e with
    | .ok (needed, a) => (.mounted (.ok needed), a)
    | .error why => (.mounted (.error why), a)
  | .subscribe observer => (.subscribed, a.subscribe observer)
  | .edit f => (.edited a.editor.isSome, a.edit f)
  | .handle event => ((.handled (a.handle event).1), (a.handle event).2)
  | .dispose => (.disposed a.dispose.1 a.dispose.2.1, a.dispose.2.2)

/-- The adapter after some calls. -/
def after (a : Adapter ε) (calls : List (Call ε)) : Adapter ε :=
  calls.foldl (fun a c => (a.call c).2) a

/-- What some calls answer, in turn. -/
def answers : Adapter ε → List (Call ε) → List (Answer ε φ)
  | _, [] => []
  | a, c :: calls => (a.call c).1 :: answers (a.call c).2 calls

theorem after_append (a : Adapter ε) (calls later : List (Call ε)) :
    a.after (calls ++ later) = (a.after calls).after later := List.foldl_append

theorem answers_append (a : Adapter ε) (calls later : List (Call ε)) :
    a.answers (calls ++ later) = a.answers calls ++ (a.after calls).answers later := by
  induction calls generalizing a with
  | nil => rfl
  | cons c calls ih => exact congrArg _ (ih (a.call c).2)

/-! ## What the calls do -/

/-- Mounting an adapter that has no editor yet injects the editor. -/
theorem call_mount {a : Adapter ε} (h : a.state = .unmounted) (e : ε) :
    a.call (.mount e) =
      match EmbeddedEditor.inject e a.registry a.toolbox with
      | .ok e => (.mounted (.ok true), { a with editor := some e, state := .mounted })
      | .error why => (.mounted (.error (.editor why)), a) := by
  simp only [call, mount, h]
  cases EmbeddedEditor.inject e a.registry a.toolbox <;> rfl

/-- The adapter is mounted then, if it is not left as it was. -/
theorem call_mount_snd (a : Adapter ε) (e : ε) :
    (a.call (.mount e)).2 = a ∨ a.state = .unmounted ∧
      ∃ e', (a.call (.mount e)).2 = { a with editor := some e', state := .mounted } := by
  obtain hstate | hstate | hstate : a.state = .unmounted ∨ a.state = .mounted ∨
      a.state = .disposed := by cases a.state <;> simp
  · rw [call_mount hstate]
    cases EmbeddedEditor.inject e a.registry a.toolbox with
    | error why => exact .inl rfl
    | ok e' => exact .inr ⟨hstate, e', rfl⟩
  · exact .inl (by simp only [call, mount, hstate])
  · exact .inl (by simp only [call, mount, hstate])

theorem call_mount_mounted {a : Adapter ε} (h : a.state = .mounted) (e : ε) :
    a.call (.mount e) = (.mounted (.ok false), a) := by
  simp only [call, mount, h]

/-- An event that changes blocks has the text of the editor delivered. -/
theorem handle_structural {a : Adapter ε} {event : ChangeEvent} {e : ε}
    (hevent : event.isStructural = true) (hstate : a.state = .mounted)
    (heditor : a.editor = some e) :
    a.handle event =
      (some ⟨a.generator.graphCode (EmbeddedEditor.graph e), a.observers⟩,
        { a with current := some (a.generator.graphCode (EmbeddedEditor.graph e)) }) := by
  simp only [handle, hevent, hstate, heditor]

theorem handle_ignored {a : Adapter ε} {event : ChangeEvent}
    (h : ¬ (event.isStructural = true ∧ a.state = .mounted)) : a.handle event = (none, a) := by
  rw [handle]
  split
  · next hevent hstate _ => exact absurd ⟨hevent, hstate⟩ h
  · rfl

/-- Whatever it delivers, an event leaves all but the current text. -/
theorem handle_snd (a : Adapter ε) (event : ChangeEvent) :
    (a.handle event).2 =
      { a with current := ((a.handle event).1.map Delivery.code).or a.current } := by
  rw [handle]
  split <;> rfl

/-- A disposal leaves an adapter without editor and without observers. -/
theorem call_dispose_snd (a : Adapter ε) :
    (a.call .dispose).2 = a ∧ a.state = .disposed ∨
      (a.call .dispose).2 = { a with editor := none, observers := [], state := .disposed } := by
  simp only [call, dispose]
  split
  · next hstate => exact .inl ⟨rfl, hstate⟩
  · exact .inr rfl

/-- No call changes what the adapter was made for. -/
theorem call_made (a : Adapter ε) (c : Call ε) :
    (a.call c).2.generator = a.generator ∧ (a.call c).2.registry = a.registry ∧
      (a.call c).2.toolbox = a.toolbox := by
  cases c with
  | mount e =>
    rcases call_mount_snd a e with h | ⟨-, e', h⟩ <;> rw [h] <;> exact ⟨rfl, rfl, rfl⟩
  | subscribe observer => exact ⟨rfl, rfl, rfl⟩
  | edit f => exact ⟨rfl, rfl, rfl⟩
  | handle event => simp only [call, handle_snd, and_self]
  | dispose =>
    rcases call_dispose_snd a with ⟨h, -⟩ | h <;> rw [h] <;> exact ⟨rfl, rfl, rfl⟩

theorem call_state_disposed (a : Adapter ε) (c : Call ε) :
    (a.call c).2.state = .disposed ↔ a.state = .disposed ∨ c = .dispose := by
  cases c with
  | mount e =>
    rcases call_mount_snd a e with h | ⟨hstate, e', h⟩
    · simp [h]
    · simp [h, hstate]
  | subscribe observer => simp [call, subscribe]
  | edit f => simp [call, edit]
  | handle event => simp [call, handle_snd]
  | dispose =>
    rcases call_dispose_snd a with ⟨h, hstate⟩ | h
    · simp [h, hstate]
    · simp [h]

/-- Observers are added at the end, and go with a disposal only. -/
theorem call_observers {a : Adapter ε} {c : Call ε} (h : (a.call c).2.state ≠ .disposed) :
    (a.call c).2.observers = a.observers ++ c.observer?.toList := by
  cases c with
  | mount e =>
    rcases call_mount_snd a e with h | ⟨-, e', h⟩ <;> simp [h, Call.observer?]
  | subscribe observer => rfl
  | edit f => exact (List.append_nil _).symm
  | handle event => simp [call, handle_snd, Call.observer?]
  | dispose => exact absurd ((call_state_disposed a .dispose).2 (.inr rfl)) h

/-- The current text is the one that was delivered last. -/
theorem call_current (a : Adapter ε) (c : Call ε) :
    (a.call c).2.current = ((a.call c).1.delivery?.map Delivery.code).or a.current := by
  cases c with
  | mount e =>
    have hnone : (a.call (.mount e)).1.delivery? = none := by
      rw [call]
      cases a.mount e <;> rfl
    rcases call_mount_snd a e with h | ⟨-, e', h⟩ <;> simp [h, hnone]
  | subscribe observer => rfl
  | edit f => rfl
  | handle event => simp [call, handle_snd, Answer.delivery?]
  | dispose =>
    have hnone : (a.call .dispose).1.delivery? = none := rfl
    rcases call_dispose_snd a with ⟨h, -⟩ | h <;> simp [h, hnone]

/-- A disposed adapter refuses whatever comes. -/
theorem call_disposed {a : Adapter ε} (hstate : a.state = .disposed) (heditor : a.editor = none)
    (c : Call ε) :
    (a.call c).1 = c.refusal ∧ (a.call c).2.state = .disposed ∧ (a.call c).2.editor = none := by
  cases c with
  | mount e => simp only [call, mount, hstate, heditor, Call.refusal, and_self]
  | subscribe observer => exact ⟨rfl, hstate, heditor⟩
  | edit f => simp [call, edit, hstate, heditor, Call.refusal]
  | handle event =>
    have hignored : a.handle event = (none, a) := handle_ignored (by simp [hstate])
    simp only [call, hignored, hstate, heditor, Call.refusal, and_self]
  | dispose => simp only [call, dispose, hstate, heditor, Call.refusal, and_self]

/-- It does so for ever. -/
theorem answers_disposed {a : Adapter ε} (hstate : a.state = .disposed)
    (heditor : a.editor = none) (later : List (Call ε)) :
    (a.after later).state = .disposed ∧ a.answers later = later.map Call.refusal := by
  induction later generalizing a with
  | nil => exact ⟨hstate, rfl⟩
  | cons c later ih =>
    obtain ⟨hanswer, hstate, heditor⟩ := call_disposed hstate heditor c
    exact ⟨(ih hstate heditor).1, congrArg₂ _ hanswer (ih hstate heditor).2⟩

/-- The editor is held, with the edits that are made, until the adapter is disposed. -/
theorem editor_after {a : Adapter ε} {e : ε} (hstate : a.state = .mounted)
    (heditor : a.editor = some e) {later : List (Call ε)} (hlater : Call.dispose ∉ later) :
    (a.after later).editor = some (later.foldl (fun e c => c.alter e) e) := by
  induction later generalizing a e with
  | nil => exact heditor
  | cons c later ih =>
    have hc : c ≠ .dispose := fun h => hlater (h ▸ List.mem_cons_self)
    have hstep : (a.call c).2.state = .mounted ∧ (a.call c).2.editor = some (c.alter e) := by
      cases c with
      | mount e' => rw [call_mount_mounted hstate]; exact ⟨hstate, heditor⟩
      | subscribe observer => exact ⟨hstate, heditor⟩
      | edit f => exact ⟨hstate, congrArg (Option.map f) heditor⟩
      | handle event => simp only [call, handle_snd]; exact ⟨hstate, heditor⟩
      | dispose => exact absurd rfl hc
    exact ih hstep.1 hstep.2 fun h => hlater (List.mem_cons_of_mem c h)

/-! ## The phases -/

/-- The phases of a life: for each the state, the editor that is held, how many have been injected
and which have been closed. -/
inductive Phase : State → Option ε → Nat → List ε → Prop
  | unmounted : Phase .unmounted none 0 []
  | mounted (e : ε) : Phase .mounted (some e) 1 []
  | unused : Phase .disposed none 0 []
  | closed (e : ε) : Phase .disposed none 1 [EmbeddedEditor.dispose e]

/-- Every call leads from a phase to a phase. -/
theorem Phase.call {a : Adapter ε} {n : Nat} {closed : List ε}
    (h : Phase a.state a.editor n closed) (c : Call ε) :
    Phase (a.call c).2.state (a.call c).2.editor (n + (a.call c).1.injected.toNat)
      (closed ++ (a.call c).1.closed?.toList) := by
  -- what is left as it is counts nothing
  have hsame : Phase a.state a.editor (n + 0) (closed ++ []) := by rwa [List.append_nil]
  cases c with
  | subscribe observer => exact hsame
  | handle event => simp only [Adapter.call, handle_snd]; exact hsame
  | mount e =>
    obtain ⟨generator, registry, toolbox, editor, observers, state, current⟩ := a
    cases h with
    | unmounted =>
      rw [call_mount rfl]
      cases EmbeddedEditor.inject e registry toolbox with
      | error why => exact .unmounted
      | ok e => exact .mounted e
    | mounted e => exact .mounted e
    | unused => exact .unused
    | closed e => exact .closed e
  | edit f =>
    obtain ⟨generator, registry, toolbox, editor, observers, state, current⟩ := a
    cases h with
    | unmounted => exact .unmounted
    | mounted e => exact .mounted (f e)
    | unused => exact .unused
    | closed e => exact .closed e
  | dispose =>
    obtain ⟨generator, registry, toolbox, editor, observers, state, current⟩ := a
    cases h with
    | unmounted => exact .unused
    | mounted e => exact .closed e
    | unused => exact .unused
    | closed e => exact .closed e

namespace Phase

variable {state : State} {editor : Option ε} {n : Nat} {closed : List ε}

theorem held (h : Phase state editor n closed) : editor.isSome = true ↔ state = .mounted := by
  cases h <;> simp

theorem injected_le (h : Phase state editor n closed) : n ≤ 1 := by
  cases h <;> simp

/-- What has been injected has been closed when the adapter is disposed, and not before. -/
theorem closed_length (h : Phase state editor n closed) :
    closed.length = if state = .disposed then n else 0 := by
  cases h <;> simp

theorem unmounted_iff (h : Phase state editor n closed) :
    state = .unmounted ↔ state ≠ .disposed ∧ n = 0 := by
  cases h <;> simp

theorem editor_disposed (h : Phase state editor n closed) (hstate : state = .disposed) :
    editor = none := by
  cases h <;> simp_all

end Phase

/-! ## A whole life -/

/-- What is known of an adapter from the calls that were made on it and their answers. -/
structure Lived (generator : Generation.Generator) (registry : Registry) (toolbox : Toolbox)
    (calls : List (Call ε)) (given : List (Answer ε φ)) (a : Adapter ε) : Prop where
  generator : a.generator = generator
  registry : a.registry = registry
  toolbox : a.toolbox = toolbox
  phase : Phase a.state a.editor (injections given) (closings given)
  disposed : a.state = .disposed ↔ Call.dispose ∈ calls
  observers : a.state ≠ .disposed → a.observers = subscribers calls
  current : a.current = (deliveries given).getLast?.map Delivery.code

namespace Lived

variable {generator : Generation.Generator} {registry : Registry} {toolbox : Toolbox}
variable {calls : List (Call ε)} {given : List (Answer ε φ)} {a : Adapter ε}

theorem new (generator : Generation.Generator) (registry : Registry) (toolbox : Toolbox) :
    Lived generator registry toolbox [] ([] : List (Answer ε φ)) (new generator registry toolbox) :=
  ⟨rfl, rfl, rfl, .unmounted, by simp [Adapter.new], fun _ => rfl, rfl⟩

theorem call (h : Lived generator registry toolbox calls given a) (c : Call ε) :
    Lived generator registry toolbox (calls ++ [c]) (given ++ [(a.call c).1]) (a.call c).2 where
  generator := (call_made a c).1.trans h.generator
  registry := (call_made a c).2.1.trans h.registry
  toolbox := (call_made a c).2.2.trans h.toolbox
  phase := by
    rw [injections_concat, closings, filterMap_concat]
    exact h.phase.call c
  disposed := by
    rw [call_state_disposed, h.disposed, List.mem_append, List.mem_singleton, eq_comm (a := c)]
  observers hstate := by
    have hbefore : a.state ≠ .disposed := fun hd =>
      hstate ((call_state_disposed a c).2 (.inl hd))
    rw [call_observers hstate, h.observers hbefore, subscribers, subscribers, filterMap_concat]
  current := by
    rw [call_current, h.current, deliveries, deliveries, filterMap_concat]
    cases (a.call c).1.delivery? <;> simp

theorem after (generator : Generation.Generator) (registry : Registry) (toolbox : Toolbox)
    (calls : List (Call ε)) :
    Lived generator registry toolbox calls ((Adapter.new generator registry toolbox).answers calls)
      ((Adapter.new generator registry toolbox).after calls) := by
  induction calls using List.reverseRecOn with
  | nil => exact new generator registry toolbox
  | append_singleton calls c ih =>
    rw [after_append, answers_append]
    exact ih.call c

end Lived

end

/-- A life: an event comes too early, one observer before the editor and one after it, and an editor
too late. -/
def shortLife : List (Call Editor) :=
  [.subscribe 0, .handle (.create "out"), .mount (.new .empty), .subscribe 1,
    .edit fun e => { e with workspace := ⟨[.fresh "out" "sap_logout"]⟩ },
    .handle .scroll, .handle (.create "out"), .dispose, .mount (.new .empty)]

end Adapter
end VisualBlocks

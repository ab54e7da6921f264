import Mathlib.Data.List.Forall2
import VisualBlocks.Generation.Walk
import VisualBlocks.Proofs.Generation.Naming

/-!
# What steps of a pass ensure

`Walk.Ensures x p post`: begun at the pass `p`, the step comes to an end, and `post` holds of its
result and of the pass it leaves.  So an answer is always more than a promise about answers: there
is one.

A rule is a conversation, and what it ensures follows from what the answers to its requests ensure,
one request after the other (`Walk.Ensures.bind`); a list of conversations carries an invariant
through (`Emission.ensures_mapM`).
-/

set_option autoImplicit false

namespace VisualBlocks
namespace Generation

/-! ## Steps -/

/-- A step that asks for the state gets the one that it begins with. -/
theorem Walk.get_bind {σ α : Type} (f : σ → StateT σ Option α) (s : σ) :
    ((get : StateT σ Option σ) >>= f) s = f s s := rfl

/-- The step comes to an end with a result and a pass of which `post` holds. -/
def Walk.Ensures {α : Type} (x : Walk α) (p : Pass) (post : α → Pass → Prop) : Prop :=
  ∃ a q, x p = some (a, q) ∧ post a q

namespace Walk.Ensures

variable {α β : Type} {x : Walk α} {p : Pass} {post mid : α → Pass → Prop}

theorem pure {a : α} (h : post a p) : (Pure.pure a : Walk α).Ensures p post := ⟨a, p, rfl, h⟩

theorem mono (h : x.Ensures p mid) (hpost : ∀ a q, mid a q → post a q) : x.Ensures p post := by
  obtain ⟨a, q, hx, hmid⟩ := h
  exact ⟨a, q, hx, hpost a q hmid⟩

/-- What one step leaves the next one begins with. -/
theorem bind {f : α → Walk β} {post : β → Pass → Prop} (h : x.Ensures p mid)
    (hf : ∀ a q, mid a q → (f a).Ensures q post) : (x >>= f).Ensures p post := by
  obtain ⟨a, q, hx, hmid⟩ := h
  obtain ⟨b, r, hb, hpost⟩ := hf a q hmid
  refine ⟨b, r, ?_, hpost⟩
  have hbind : (x >>= f) p = (x p).bind fun s => f s.1 s.2 := rfl
  rw [hbind, hx]
  exact hb

theorem map {f : α → β} {post : β → Pass → Prop} (h : x.Ensures p fun a q => post (f a) q) :
    (f <$> x).Ensures p post := by
  rw [map_eq_pure_bind]
  exact h.bind fun a q ha => pure ha

theorem naming {f : Pass → String × Pass} {post : String → Pass → Prop}
    (h : post (f p).1 (f p).2) : (Walk.naming f).Ensures p post := ⟨(f p).1, (f p).2, rfl, h⟩

end Walk.Ensures

/-! ## One step after the other -/

/-- Each of the results was reached from a pass that the one before it left. -/
inductive Threaded {α β : Type} (said : α → β → Pass → Pass → Prop) :
    List α → List β → Pass → Pass → Prop
  | nil (p : Pass) : Threaded said [] [] p p
  | cons {a : α} {b : β} {as : List α} {bs : List β} {p q r : Pass} (h : said a b p q)
      (hrest : Threaded said as bs q r) : Threaded said (a :: as) (b :: bs) p r

namespace Threaded

variable {α β : Type} {said : α → β → Pass → Pass → Prop} {as : List α} {bs : List β} {p q : Pass}

theorem grows (h : Threaded said as bs p q) (hgrows : ∀ a b p q, said a b p q → p.Grows q) :
    p.Grows q := by
  induction h with
  | nil p => exact .refl p
  | cons hhead _ ih => exact (hgrows _ _ _ _ hhead).trans ih

theorem mono {said' : α → β → Pass → Pass → Prop} (h : Threaded said as bs p q)
    (hsaid : ∀ a ∈ as, ∀ b p q, said a b p q → said' a b p q) : Threaded said' as bs p q := by
  induction h with
  | nil p => exact .nil p
  | cons hhead _ ih =>
    rw [List.forall_mem_cons] at hsaid
    exact .cons (hsaid.1 _ _ _ hhead) (ih hsaid.2)

/-- What remains true as the pass goes on is true of all results in the end. -/
theorem forall₂ {holds : α → β → Pass → Prop} (h : Threaded said as bs p q)
    (hgrows : ∀ a b p q, said a b p q → p.Grows q) (hholds : ∀ a b p q, said a b p q → holds a b q)
    (hkeeps : ∀ a b q r, holds a b q → q.Grows r → holds a b r) :
    List.Forall₂ (fun a b => holds a b q) as bs := by
  induction h with
  | nil p => exact .nil
  | cons hhead hrest ih =>
    exact .cons (hkeeps _ _ _ _ (hholds _ _ _ _ hhead) (hrest.grows hgrows)) ih

end Threaded

/-! ## Conversations -/

namespace Emission

variable {α β : Type}

theorem andThen_done (e : Emission α) : e.andThen .done = e := by
  induction e with
  | done a => rfl
  | ask request resume ih => rw [andThen]; exact congrArg _ (funext ih)

theorem andThen_assoc {γ : Type} (f : α → Emission β) (g : β → Emission γ) (e : Emission α) :
    (e.andThen f).andThen g = e.andThen fun a => (f a).andThen g := by
  induction e with
  | done a => rfl
  | ask request resume ih => rw [andThen, andThen, andThen]; exact congrArg _ (funext ih)

instance : LawfulMonad Emission :=
  .mk' Emission (fun e => andThen_done e) (fun _ _ => rfl) (fun e f g => andThen_assoc f g e)

variable {answer : Request → Walk String} {p : Pass}

theorem run_bind (e : Emission α) (f : α → Emission β) :
    (e >>= f).run answer = e.run answer >>= fun a => (f a).run answer := run_andThen answer f e

theorem run_ask (request : Request) :
    (Emission.ask request .done).run answer = answer request := by
  rw [run]
  exact bind_pure (answer request)

/-- What a conversation leaves the next one begins with. -/
theorem ensures_bind {e : Emission α} {f : α → Emission β} {mid : α → Pass → Prop}
    {post : β → Pass → Prop} (h : (e.run answer).Ensures p mid)
    (hf : ∀ a q, mid a q → ((f a).run answer).Ensures q post) :
    ((e >>= f).run answer).Ensures p post := by
  rw [run_bind]
  exact h.bind hf

theorem ensures_pure {a : α} {post : α → Pass → Prop} (h : post a p) :
    ((pure a : Emission α).run answer).Ensures p post := .pure h

theorem ensures_map {e : Emission α} {f : α → β} {post : β → Pass → Prop}
    (h : (e.run answer).Ensures p fun a q => post (f a) q) :
    ((f <$> e).run answer).Ensures p post := by
  rw [map_eq_pure_bind]
  exact ensures_bind h fun a q ha => ensures_pure ha

/-- A request is answered. -/
theorem ensures_ask {request : Request} {post : String → Pass → Prop}
    (h : (answer request).Ensures p post) :
    ((Emission.ask request .done).run answer).Ensures p post := by
  rw [run_ask]
  exact h

/-- **A list of conversations carries an invariant through.**  What is said of each result goes by
the pass before it and the pass after it; the invariant speaks of what is still to come. -/
theorem ensures_mapM {f : α → Emission β} (invariant : List α → Pass → Prop)
    (said : α → β → Pass → Pass → Prop)
    (hstep : ∀ a rest q, invariant (a :: rest) q →
      ((f a).run answer).Ensures q fun b r => said a b q r ∧ invariant rest r)
    (l : List α) (p : Pass) (h : invariant l p) :
    ((l.mapM f).run answer).Ensures p fun bs q => Threaded said l bs p q ∧ invariant [] q := by
  induction l generalizing p with
  | nil =>
    rw [List.mapM_nil]
    exact ensures_pure ⟨.nil p, h⟩
  | cons a rest ih =>
    rw [List.mapM_cons]
    refine ensures_bind (hstep a rest p h) fun b q hb => ?_
    refine ensures_bind (ih q hb.2) fun bs r hbs => ?_
    exact ensures_pure ⟨.cons hb.1 hbs.1, hbs.2⟩

end Emission
end Generation
end VisualBlocks

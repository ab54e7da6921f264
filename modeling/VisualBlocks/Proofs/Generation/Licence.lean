import VisualBlocks.Proofs.Generation.Naming
import VisualBlocks.Proofs.Generation.Shape
import VisualBlocks.Proofs.Script.Scope

/-!
# What generated text may name

An expression in a generated program names the variables that the pass knows and a few functions.
There is one exception: a number without digits is written as a word, and the word is read as a
name that nothing declares (`BlockTree.Odd`).

A `Licence` is what may be said beyond that: whether functions may be called that do something
outside the program, and which odd words may be there.  It comes from the blocks of a tree, and **the
parts of a tree have no more licence than the tree** (`BlockTree.IsPart.licence`).
-/

set_option autoImplicit false

namespace VisualBlocks

open Script

/-! ## Odd words -/

namespace BlockTree

/-- The number that a block writes out as it stands in a field, for the types that do so. -/
def ownNumber? (type : String) (fields : Table String) : Option Float :=
  match type with
  | "math_number" => some (numberIn (fields.get? "NUM"))
  | "controls_repeat" => Number.float? ((fields.get? "TIMES").getD "0")
  | _ => none

/-- The word that a block writes for its number, if the number is without digits. -/
def oddWords (type : String) (fields : Table String) : List String :=
  ((ownNumber? type fields).bind Number.literalWord?).toList

theorem oddWords_eq_nil {type : String} {fields : Table String}
    (h : ∀ x ∈ ownNumber? type fields, x.isFinite = true) : oddWords type fields = [] := by
  rw [oddWords]
  cases hx : ownNumber? type fields with
  | none => rfl
  | some x => rw [Option.bind_some, Number.literalWord?_of_isFinite (h x hx), Option.toList]

/-- Is the word there for a number without digits in a field of the tree? -/
def Odd (t : BlockTree) (word : String) : Prop :=
  ∃ b ∈ t.blocks, word ∈ oddWords b.2.type b.2.fields

variable {t c : BlockTree}

theorem Odd.part {word : String} (h : c.Odd word) (hc : c.IsPart t) : t.Odd word := by
  obtain ⟨b, hb, hword⟩ := h
  exact ⟨b, hc.subset b hb, hword⟩

theorem Odd.self {word : String} (h : word ∈ oddWords t.type t.fields) : t.Odd word :=
  ⟨_, t.self_mem_blocks, h⟩

end BlockTree

/-! ## Licences -/

/-- What a text may name beyond the variables of the program. -/
structure Licence where
  /-- Nothing that does something outside the program is called. -/
  quiet : Prop
  /-- The words for numbers without digits. -/
  odd : String → Prop

/-- Is all that is allowed by one licence allowed by the other one too? -/
structure Licence.Within (L M : Licence) : Prop where
  quiet : M.quiet → L.quiet
  odd : ∀ word, L.odd word → M.odd word

theorem Licence.Within.refl (L : Licence) : L.Within L := ⟨fun h => h, fun _ h => h⟩

namespace BlockTree

/-- The licence that the blocks of a tree give. -/
def licence (t : BlockTree) : Licence := ⟨t.Quiet, t.Odd⟩

theorem IsPart.licence {t c : BlockTree} (h : c.IsPart t) : c.licence.Within t.licence :=
  ⟨fun hquiet => hquiet.part h, fun _ hword => hword.part h⟩

/-- The licence that the blocks of all trees give. -/
def forestLicence (forest : List BlockTree) : Licence :=
  ⟨∀ t ∈ forest, t.Quiet, fun word => ∃ t ∈ forest, t.Odd word⟩

theorem licence_within_forest {t : BlockTree} {forest : List BlockTree} (h : t ∈ forest) :
    t.licence.Within (forestLicence forest) :=
  ⟨fun hquiet => hquiet t h, fun _ hword => ⟨t, h, hword⟩⟩

end BlockTree

/-! ## The scope of a pass -/

namespace Generation

/-- The functions that generated text calls. -/
def scriptFunctions : List String := "Math.pow" :: "String" :: Sandbox.capabilityNames

/-- What may be named beside the given words: the functions only. -/
def outerScope (odd : String → Prop) : Scope := ⟨odd, (· ∈ scriptFunctions)⟩

/-- What may be named in the text that a pass has written. -/
def Pass.scope (p : Pass) (odd : String → Prop) : Scope :=
  ⟨fun x => (∃ raw, p.known.lookup raw = some x) ∨ odd x, (· ∈ scriptFunctions)⟩

variable {p q : Pass} {odd odd' : String → Prop}

theorem Pass.Grows.scope (h : p.Grows q) (hodd : ∀ x, odd x → odd' x) :
    (p.scope odd).Within (q.scope odd') :=
  ⟨fun x hx => hx.imp (fun ⟨raw, hraw⟩ => ⟨raw, h.keeps raw x hraw⟩) (hodd x), fun _ h => h⟩

/-- What a pass may name is declared in front of the program. -/
theorem Pass.scope_within (p : Pass) (odd : String → Prop) :
    (p.scope odd).Within ((outerScope odd).extend p.names) := by
  refine ⟨?_, fun _ h => h⟩
  rintro x (⟨raw, hraw⟩ | hx)
  · exact .inr (List.mem_map.2 ⟨(raw, x), Table.mem_of_lookup hraw, rfl⟩)
  · exact .inl hx

end Generation
end VisualBlocks

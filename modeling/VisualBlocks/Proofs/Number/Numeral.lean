import VisualBlocks.Number.Layout
import VisualBlocks.Number.Reading
import VisualBlocks.Proofs.Script.Scanning

/-!
# Numerals

How a number stands in a script: as a numeral, digits with possibly a point and more digits among
them, or as a word where there are no digits for it (`literalWord?`), and with a minus sign in front
if it is negative (`Number.literal_form`).  Every numeral reads as a number (`float?_isSome`).
-/

set_option autoImplicit false

namespace VisualBlocks
namespace Number

open Script (IsNumeral)

theorem isDigit_digitChars {n : Nat} {c : Char} (h : c ∈ digitChars n) : c.isDigit = true :=
  Nat.isDigit_of_mem_toDigits (by decide) (by decide) h

theorem isDigit_zeros {n : Nat} {c : Char} (h : c ∈ List.replicate n '0') : c.isDigit = true := by
  rw [(List.mem_replicate.1 h).2]
  decide

theorem digitChars_ne_nil (n : Nat) : digitChars n ≠ [] := Nat.toDigits_ne_nil

/-- There are digits in front of the last places, if there are more digits than that. -/
theorem take_digitChars_ne_nil {n places : Nat} (h : places < (digitChars n).length) :
    (digitChars n).take ((digitChars n).length - places) ≠ [] := by
  intro htake
  have hlength := congrArg List.length htake
  rw [List.length_take, List.length_nil] at hlength
  omega

/-- **A decimal is written as a numeral.** -/
theorem Decimal.isNumeral_positional (d : Decimal) : IsNumeral d.positional := by
  rw [Decimal.positional]
  dsimp only
  split
  · refine ⟨_, [], ?_, nofun, List.append_ne_nil_of_left_ne_nil (digitChars_ne_nil _) _, .inl rfl⟩
    intro c hc
    exact (List.mem_append.1 hc).elim isDigit_digitChars isDigit_zeros
  · split
    · next hplaces =>
      refine ⟨_, _, ?_, ?_, take_digitChars_ne_nil hplaces, .inr rfl⟩
      · exact fun c hc => isDigit_digitChars (List.mem_of_mem_take hc)
      · exact fun c hc => isDigit_digitChars (List.mem_of_mem_drop hc)
    · refine ⟨['0'], _, ?_, ?_, List.cons_ne_nil _ _, .inr rfl⟩
      · exact List.forall_mem_singleton.2 (by decide)
      · exact fun c hc => (List.mem_append.1 hc).elim isDigit_zeros isDigit_digitChars

theorem takeWhile_isDigit {ds : List Char} (h : ∀ c ∈ ds, c.isDigit = true) (rest : List Char) :
    (ds ++ rest).takeWhile Char.isDigit = ds ++ rest.takeWhile Char.isDigit :=
  List.takeWhile_append_of_pos h

theorem dropWhile_isDigit {ds : List Char} (h : ∀ c ∈ ds, c.isDigit = true) (rest : List Char) :
    (ds ++ rest).dropWhile Char.isDigit = rest.dropWhile Char.isDigit :=
  List.dropWhile_append_of_pos h

/-- Digits read as what they stand for. -/
theorem decimal?_digits {ds : List Char} (hds : ∀ c ∈ ds, c.isDigit = true) (hne : ds ≠ []) :
    decimal? ds = some (nearest (ofDigits ds) 0) := by
  have hwhole : ds.takeWhile Char.isDigit = ds := by
    have h := takeWhile_isDigit hds []
    rwa [List.takeWhile_nil, List.append_nil] at h
  have hrest : ds.dropWhile Char.isDigit = [] := by
    have h := dropWhile_isDigit hds []
    rwa [List.append_nil] at h
  have hempty : ds.isEmpty = false := Bool.eq_false_iff.2 fun h => hne (List.isEmpty_iff.1 h)
  rw [decimal?]
  simp only [hwhole, hrest, hempty, Bool.false_and, exponent?, List.append_nil]
  rfl

/-- Digits after a point count for less by a tenth each. -/
theorem decimal?_point {ds es : List Char} (hds : ∀ c ∈ ds, c.isDigit = true)
    (hes : ∀ c ∈ es, c.isDigit = true) (hne : ds ≠ []) :
    decimal? (ds ++ '.' :: es) = some (nearest (ofDigits (ds ++ es)) (-es.length)) := by
  have hall : es.takeWhile Char.isDigit = es := by
    have h := takeWhile_isDigit hes []
    rwa [List.takeWhile_nil, List.append_nil] at h
  have hrest : es.dropWhile Char.isDigit = [] := by
    have h := dropWhile_isDigit hes []
    rwa [List.append_nil] at h
  have hpoint : ('.' :: es).dropWhile Char.isDigit = '.' :: es :=
    List.dropWhile_cons_of_neg (by decide)
  have hpoint' : ('.' :: es).takeWhile Char.isDigit = [] :=
    List.takeWhile_cons_of_neg (by decide)
  have hempty : ds.isEmpty = false := Bool.eq_false_iff.2 fun h => hne (List.isEmpty_iff.1 h)
  rw [decimal?]
  simp only [takeWhile_isDigit hds, dropWhile_isDigit hds, hpoint, hpoint', List.append_nil, hempty,
    Bool.false_and, hall, hrest, exponent?]
  rw [if_neg Bool.false_ne_true, Option.map_some, Int.zero_sub]

theorem decimal?_isSome {cs : List Char} (h : IsNumeral cs) : (decimal? cs).isSome = true := by
  obtain ⟨ds, es, hds, hes, hne, hcs⟩ := h.split
  rcases hcs with rfl | rfl
  · rw [decimal?_digits hds hne]
    rfl
  · rw [decimal?_point hds hes hne]
    rfl

/-- A numeral is read without a sign. -/
theorem float?_numeral {cs : List Char} (h : IsNumeral cs) :
    float? (String.ofList cs) = decimal? cs := by
  obtain ⟨c, ds, rfl, hc⟩ := h.starts
  have hminus : c ≠ '-' := by
    rintro rfl
    exact absurd hc (by decide)
  have hplus : c ≠ '+' := by
    rintro rfl
    exact absurd hc (by decide)
  have hsign : takeSign (c :: ds) = (false, c :: ds) := by
    rw [takeSign]
    · exact fun _ h => hminus (List.cons.inj h).1
    · exact fun _ h => hplus (List.cons.inj h).1
  obtain ⟨x, hx⟩ := Option.isSome_iff_exists.1 (decimal?_isSome h)
  rw [float?, String.toList_ofList, hsign]
  dsimp only
  rw [hx]
  rfl

/-- **Every numeral reads as a number.** -/
theorem float?_isSome {cs : List Char} (h : IsNumeral cs) :
    (float? (String.ofList cs)).isSome = true := by
  rw [float?_numeral h]
  exact decimal?_isSome h

/-- The word that stands for a number without digits. -/
def literalWord? (x : Float) : Option String :=
  if x == 0 then none else if x.isNaN then some "NaN" else if x.isInf then some "inf" else none

theorem literalWord?_cases {x : Float} {word : String} (h : literalWord? x = some word) :
    word = "NaN" ∨ word = "inf" := by
  rw [literalWord?] at h
  split at h
  · cases h
  · split at h
    · exact .inl (Option.some.inj h).symm
    · split at h
      · exact .inr (Option.some.inj h).symm
      · cases h

/-- A finite number has digits. -/
theorem literalWord?_of_isFinite {x : Float} (h : x.isFinite = true) : literalWord? x = none := by
  have hfinite : x.toModel.unpack.isFinite = true := h
  have hnan : x.isNaN = false := by
    show x.toModel.unpack.isNaN = false
    cases hx : x.toModel.unpack <;> rw [hx] at hfinite <;> first | rfl | cases hfinite
  have hinf : x.isInf = false := by
    show x.toModel.unpack.isInf = false
    cases hx : x.toModel.unpack <;> rw [hx] at hfinite <;> first | rfl | cases hfinite
  rw [literalWord?, hnan, hinf]
  split <;> rfl

/-- The text of the magnitude of a number: a numeral, or the word for it. -/
def IsMagnitude (x : Float) (cs : List Char) : Prop :=
  match literalWord? x with
  | none => IsNumeral cs
  | some word => cs = word.toList

/-- **A number stands in a script as the text of its magnitude, behind a minus sign or not.** -/
theorem literal_form (x : Float) :
    ∃ cs, IsMagnitude x cs ∧ ((literal x).toList = cs ∨ (literal x).toList = '-' :: cs) := by
  have hsigned {cs : List Char} (h : IsMagnitude x cs) :
      ∃ ds, IsMagnitude x ds ∧
        ((withSign x cs).toList = ds ∨ (withSign x cs).toList = '-' :: ds) := by
    refine ⟨cs, h, ?_⟩
    rw [withSign, String.toList_ofList]
    split
    · exact .inr rfl
    · exact .inl rfl
  rw [literal]
  by_cases hzero : (x == 0) = true
  · have hnumeral : IsNumeral ['0'] :=
      ⟨['0'], [], List.all_eq_true.1 (by decide), nofun, List.cons_ne_nil _ _, .inl rfl⟩
    rw [if_pos hzero]
    refine ⟨['0'], ?_, .inl rfl⟩
    rw [IsMagnitude, literalWord?, if_pos hzero]
    exact hnumeral
  · rw [if_neg hzero, plain]
    have hword : literalWord? x = if x.isNaN then some "NaN" else if x.isInf then some "inf"
        else none := by rw [literalWord?, if_neg hzero]
    split
    · next hnan =>
      rw [if_pos hnan] at hword
      refine ⟨_, ?_, .inl rfl⟩
      rw [IsMagnitude, hword]
    · next hnan =>
      rw [if_neg hnan] at hword
      split
      · next hinf =>
        rw [if_pos hinf] at hword
        refine hsigned ?_
        rw [IsMagnitude, hword]
      · next hinf =>
        rw [if_neg hinf] at hword
        refine hsigned ?_
        rw [IsMagnitude, hword]
        exact Decimal.isNumeral_positional _

end Number
end VisualBlocks

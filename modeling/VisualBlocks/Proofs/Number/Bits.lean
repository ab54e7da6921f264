import VisualBlocks.Number.Binary
import VisualBlocks.Proofs.Number.Rounding

/-!
# The bits of a double

A double is 64 bits: a sign, eleven bits of an exponent and 52 bits of a mantissa.  Arithmetic works
on the parts (`unpack`, `pack`), and the search for digits reads the exact number off the bits
(`Binary.ofFloat`).  Here both are brought together:

* packing and unpacking give back a mantissa and an exponent that are those of a double
  (`unpack_pack`);
* **a finite double is packed from its sign and its exact number** (`eq_pack`), unless it is zero.
-/

set_option autoImplicit false

namespace VisualBlocks
namespace Number

open Float.Model Float.Model.UnpackedFloat

/-! ## Fields -/

section Fields

variable (b : BitVec Format.binary64.numBits)

theorem toNat_unpackMantissa : (unpackMantissa b).toNat = b.toNat % 2 ^ 52 := by
  rw [unpackMantissa, BitVec.toNat_cast, BitVec.extractLsb_toNat, Nat.shiftRight_zero]
  rfl

theorem toNat_unpackExponent : (unpackExponent b).toNat = b.toNat / 2 ^ 52 % 2 ^ 11 := by
  rw [unpackExponent, BitVec.toNat_cast, BitVec.extractLsb_toNat, Nat.shiftRight_eq_div_pow]
  rfl

theorem toNat_unpackSign : (unpackSign b).toNat = b.toNat / 2 ^ 63 % 2 := by
  rw [unpackSign, BitVec.toNat_cast, BitVec.extractLsb_toNat, Nat.shiftRight_eq_div_pow]
  rfl

theorem toNat_packComponents (sign : Sign) (e : BitVec Format.binary64.exponentBits)
    (m : BitVec Format.binary64.mantissaBitsWithoutImplicit) :
    (packComponents Format.binary64 sign e m).toNat =
      (sign.toBitVec.toNat * 2 ^ 11 + e.toNat) * 2 ^ 52 + m.toNat := by
  rw [packComponents, BitVec.toNat_append, BitVec.toNat_append, ← Nat.shiftLeft_add_eq_or_of_lt m.isLt,
    ← Nat.shiftLeft_add_eq_or_of_lt e.isLt, Nat.shiftLeft_eq, Nat.shiftLeft_eq]

end Fields

/-! ## Packing and unpacking -/

theorem toNat_implicit (m : BitVec Format.binary64.mantissaBitsWithoutImplicit) :
    (1#1 ++ m).toNat = 2 ^ 52 + m.toNat := by
  rw [BitVec.toNat_append, ← Nat.shiftLeft_add_eq_or_of_lt m.isLt, Nat.shiftLeft_eq]
  rfl

theorem log2_eq_iff_full {m : ℕ} (hlt : m < 2 ^ 53) (hpos : 0 < m) :
    m.log2 + 1 = Format.binary64.mantissaBits ↔ 2 ^ 52 ≤ m := by
  have hlog : m.log2 < 53 := (Nat.log2_lt hpos.ne').2 hlt
  rw [← Nat.le_log2 hpos.ne']
  show m.log2 + 1 = 53 ↔ _
  omega

/-- The bits of a double that is not zero: its sign, its exponent from one on, unless the mantissa
lacks the first bit, and the other bits of the mantissa. -/
def bitsOf (sign : Sign) (m : ℕ) (e : ℤ) : ℕ :=
  (sign.toBitVec.toNat * 2 ^ 11 + if 2 ^ 52 ≤ m then (e + 1075).toNat else 0) * 2 ^ 52 + m % 2 ^ 52

section IsDouble

variable {m : ℕ} {e : ℤ} (h : IsDouble m e) (sign : Sign)
include h

theorem toNat_pack :
    (UnpackedFloat.pack Format.binary64 (.finite sign m e h.pos)).toNat = bitsOf sign m e := by
  have hleast := h.least
  have hmost := h.most
  have hbiased : (e + Format.binary64.exponentBias +
      Format.binary64.mantissaBitsWithoutImplicit).toNat = (e + 1075).toNat := by
    show (e + (1023 : ℕ) + (52 : ℕ)).toNat = _
    omega
  have hfits : ¬ 2 ^ Format.binary64.exponentBits ≤ (e + 1075).toNat + 1 := by
    show ¬ 2 ^ 11 ≤ (e + 1075).toNat + 1
    omega
  rw [UnpackedFloat.pack, bitsOf]
  dsimp only
  rw [hbiased, if_neg hfits]
  split
  · next hfull =>
    rw [log2_eq_iff_full h.lt h.pos] at hfull
    rw [toNat_packComponents, BitVec.toNat_ofNat, BitVec.toNat_ofNat, if_pos hfull,
      Nat.mod_eq_of_lt (by omega)]
  · next hsmall =>
    rw [log2_eq_iff_full h.lt h.pos] at hsmall
    rw [toNat_packComponents, BitVec.toNat_ofNat, if_neg hsmall]
    rfl

/-- **Bits are unpacked to the double whose bits they are.** -/
theorem unpack_of_toNat {b : BitVec Format.binary64.numBits} (hb : b.toNat = bitsOf sign m e) :
    UnpackedFloat.unpack Format.binary64 b = .finite sign m e h.pos := by
  have hleast := h.least
  have hmost := h.most
  have hlt := h.lt
  have hpos := h.pos
  have hmantissa := toNat_unpackMantissa b
  have hexponent := toNat_unpackExponent b
  have hsign : Sign.ofBitVec (unpackSign b) = sign := by
    have hbit : unpackSign b = sign.toBitVec := by
      refine BitVec.eq_of_toNat_eq ?_
      rw [toNat_unpackSign, hb, bitsOf]
      cases sign <;> simp only [Sign.toBitVec, BitVec.toNat_ofNat] <;> split <;> omega
    rw [hbit]
    cases sign <;> rfl
  have hones : (-BitVec.ofNat Format.binary64.exponentBits 1).toNat = 2047 := rfl
  have hbias : (Format.binary64.exponentBias : ℤ) + Format.binary64.mantissaBitsWithoutImplicit =
      1075 := rfl
  rw [hb, bitsOf] at hmantissa hexponent
  rw [UnpackedFloat.unpack]
  dsimp only
  rw [hsign, hbias]
  by_cases hfull : 2 ^ 52 ≤ m
  · rw [if_pos hfull] at hmantissa hexponent
    have hexponent' : (unpackExponent b).toNat = (e + 1075).toNat := by omega
    have hmantissa' : (1#1 ++ unpackMantissa b).toNat = m := by
      rw [toNat_implicit]
      omega
    rw [if_neg fun heq => ?_, if_neg fun heq => ?_]
    · simp only [hmantissa', hexponent']
      congr 1
      omega
    · rw [heq, BitVec.toNat_zero] at hexponent'
      omega
    · rw [heq, hones] at hexponent'
      omega
  · have hsmall := h.full.resolve_left hfull
    rw [if_neg hfull] at hmantissa hexponent
    have hexponent' : (unpackExponent b).toNat = 0 := by omega
    have hmantissa' : (unpackMantissa b).toNat = m := by omega
    have hzero : unpackExponent b = 0#_ := BitVec.eq_of_toNat_eq hexponent'
    rw [if_neg fun heq => ?_, if_pos hzero, dif_neg fun heq => ?_]
    · simp only [hmantissa', hexponent']
      congr 1
      omega
    · rw [heq, BitVec.toNat_zero] at hmantissa'
      omega
    · rw [heq, hones] at hexponent'
      omega

theorem unpack_pack : (Float.Model.pack (.finite sign m e h.pos)).unpack = .finite sign m e h.pos :=
  unpack_of_toNat h sign (toNat_pack h sign)

end IsDouble

/-! ## Doubles as exact numbers -/

/-- The sign of a double. -/
def signOf (x : Float) : Sign := if isNegative x then .negative else .positive

/-- The bits of a double. -/
def bitVec (x : Float) : BitVec Format.binary64.numBits := x.toBits.toBitVec

theorem unpack_toModel (x : Float) :
    x.toModel.unpack = UnpackedFloat.unpack Format.binary64 (bitVec x) := rfl

theorem toNat_bitVec (x : Float) : (bitVec x).toNat = x.toBits.toNat := rfl

/-- Doubles with the same bits are the same. -/
theorem eq_of_toBits {x y : Float} (h : x.toBits = y.toBits) : x = y := by
  obtain ⟨⟨bits, hvalid⟩⟩ := x
  obtain ⟨⟨bits', hvalid'⟩⟩ := y
  obtain rfl : bits = bits' := h
  rfl

section Finite

variable {x : Float}

/-- A finite double does not have the largest exponent. -/
theorem exponent_ne_of_isFinite (h : x.isFinite = true) :
    x.toBits.toNat / 2 ^ 52 % 2 ^ 11 ≠ 2047 := by
  intro hones
  rw [← toNat_bitVec, ← toNat_unpackExponent] at hones
  have hexponent : unpackExponent (bitVec x) = -1#_ := BitVec.eq_of_toNat_eq hones
  have hfinite : (UnpackedFloat.unpack Format.binary64 (bitVec x)).isFinite = true := h
  rw [UnpackedFloat.unpack] at hfinite
  dsimp only at hfinite
  rw [if_pos hexponent] at hfinite
  split at hfinite <;> cases hfinite

/-- A double without a bit in its exponent and its mantissa is zero. -/
theorem beq_zero_of_bits (hexponent : x.toBits.toNat / 2 ^ 52 % 2 ^ 11 = 0)
    (hmantissa : x.toBits.toNat % 2 ^ 52 = 0) : (x == 0) = true := by
  rw [← toNat_bitVec, ← toNat_unpackExponent] at hexponent
  rw [← toNat_bitVec, ← toNat_unpackMantissa] at hmantissa
  have hexponent' : unpackExponent (bitVec x) = 0#_ := BitVec.eq_of_toNat_eq hexponent
  have hmantissa' : unpackMantissa (bitVec x) = 0#_ := BitVec.eq_of_toNat_eq hmantissa
  have hzero : (0 : Float).toModel.unpack = .zero .positive := by rfl
  show x.toModel.unpack.beq (0 : Float).toModel.unpack = true
  rw [hzero, unpack_toModel, UnpackedFloat.unpack]
  dsimp only
  rw [if_neg (by rw [hexponent']; decide), if_pos hexponent', dif_pos hmantissa']
  rfl

theorem bits_of_beq_zero (h : (x == 0) = true) :
    x.toBits.toNat / 2 ^ 52 % 2 ^ 11 = 0 ∧ x.toBits.toNat % 2 ^ 52 = 0 := by
  have hbeq : (UnpackedFloat.unpack Format.binary64 (bitVec x)).beq (.zero .positive) = true := h
  obtain ⟨sign, hsign⟩ : ∃ sign, UnpackedFloat.unpack Format.binary64 (bitVec x) = .zero sign := by
    cases hx : UnpackedFloat.unpack Format.binary64 (bitVec x) with
    | zero sign => exact ⟨sign, rfl⟩
    | notANumber =>
      rw [hx] at hbeq
      cases hbeq
    | infinity sign =>
      rw [hx] at hbeq
      cases sign <;> cases hbeq
    | finite sign m e hm =>
      rw [hx] at hbeq
      cases sign <;> cases hbeq
  rw [UnpackedFloat.unpack] at hsign
  dsimp only at hsign
  rw [← toNat_bitVec, ← toNat_unpackExponent, ← toNat_unpackMantissa]
  split at hsign
  · split at hsign <;> cases hsign
  · split at hsign
    · next hexponent =>
      split at hsign
      · next hmantissa =>
        rw [hexponent, hmantissa]
        exact ⟨rfl, rfl⟩
      · cases hsign
    · cases hsign

/-- There is one zero without a sign. -/
theorem eq_zero (h : (x == 0) = true) (hsign : isNegative x = false) : x = 0 := by
  obtain ⟨hexponent, hmantissa⟩ := bits_of_beq_zero h
  have hlt : x.toBits.toNat < 2 ^ 64 := x.toBits.toNat_lt
  rw [isNegative, Nat.pow_eq, beq_eq_false_iff_ne] at hsign
  refine eq_of_toBits (UInt64.toNat_inj.1 ?_)
  have hzero : (0 : Float).toBits.toNat = 0 := rfl
  rw [hzero]
  omega

variable (hfinite : x.isFinite = true) (hzero : ¬ (x == 0) = true)
include hfinite hzero

/-- The exact number that a double is. -/
theorem isDouble_ofFloat : IsDouble (Binary.ofFloat x).significand (Binary.ofFloat x).exponent := by
  have hexponent := exponent_ne_of_isFinite hfinite
  simp only [Binary.ofFloat, Nat.pow_eq]
  split
  · next hsmall =>
    have hmantissa : x.toBits.toNat % 2 ^ 52 ≠ 0 := fun h => hzero (beq_zero_of_bits hsmall h)
    dsimp only
    exact ⟨by omega, by omega, by omega, by omega, .inr rfl⟩
  · next hlarge =>
    dsimp only
    exact ⟨by omega, by omega, by omega, by omega, .inl (by omega)⟩

omit hfinite hzero in
theorem narrowBelow_iff : (Binary.ofFloat x).narrowBelow = true ↔
    (Binary.ofFloat x).significand = 2 ^ 52 ∧ -1074 < (Binary.ofFloat x).exponent := by
  simp only [Binary.ofFloat, Nat.pow_eq]
  split
  · simp
  · simp
    omega

/-- The bits of a double are those of its parts. -/
theorem toNat_toBits : x.toBits.toNat =
    bitsOf (signOf x) (Binary.ofFloat x).significand (Binary.ofFloat x).exponent := by
  have hdouble := isDouble_ofFloat hfinite hzero
  have hlt : x.toBits.toNat < 2 ^ 64 := x.toBits.toNat_lt
  have hsign : (signOf x).toBitVec.toNat = x.toBits.toNat / 2 ^ 63 % 2 := by
    rw [signOf, isNegative, Nat.pow_eq]
    split
    · next h => exact (beq_iff_eq.1 h).symm
    · next h =>
      rw [beq_iff_eq] at h
      show 0 = _
      omega
  rw [bitsOf, hsign]
  have hsmaller := exponent_ne_of_isFinite hfinite
  simp only [Binary.ofFloat, Nat.pow_eq]
  split
  · next hsmall =>
    dsimp only
    rw [if_neg (by omega)]
    omega
  · next hlarge =>
    dsimp only
    rw [if_pos (by omega)]
    omega

/-- **A double is packed from its parts.** -/
theorem eq_pack : x = .ofModel (Float.Model.pack
    (.finite (signOf x) (Binary.ofFloat x).significand (Binary.ofFloat x).exponent
      (isDouble_ofFloat hfinite hzero).pos)) := by
  have hdouble := isDouble_ofFloat hfinite hzero
  have hbits : bitVec x = UnpackedFloat.pack Format.binary64
      (.finite (signOf x) (Binary.ofFloat x).significand (Binary.ofFloat x).exponent hdouble.pos) := by
    refine BitVec.eq_of_toNat_eq ?_
    rw [toNat_bitVec, toNat_toBits hfinite hzero, toNat_pack hdouble]
  exact eq_of_toBits (congrArg UInt64.ofBitVec hbits)

end Finite

end Number
end VisualBlocks

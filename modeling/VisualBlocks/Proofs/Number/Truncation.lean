import VisualBlocks.Proofs.Number.RoundTrip

/-!
# Integers as doubles

A coordinate is an integer in the workspace and a number in a file, and it is cut to an integer when
the file is read.  **An integer that a double can be comes back as it was** (`truncate_ofInt`), as long
as it fits 64 bits, and **its digits are read as the same double** as the number itself
(`float?_toString`), also where that is another integer.
-/

set_option autoImplicit false

namespace VisualBlocks
namespace Number

open Float.Model Float.Model.UnpackedFloat

/-! ## Doubles with a sign -/

section Signed

variable {m : ℕ} {e : ℤ} (sign : Sign) (h : IsDouble m e)

/-- The double `m * 2 ^ e` or `-m * 2 ^ e`. -/
def signed (sign : Sign) (h : IsDouble m e) : Float :=
  .ofModel (Float.Model.pack (.finite sign m e h.pos))

theorem neg_double (h : IsDouble m e) : -double h = signed .negative h := by
  show Float.ofModel (Float.Model.pack (UnpackedFloat.neg (double h).toModel.unpack)) = _
  rw [unpack_double]
  rfl

theorem unpack_signed : (signed sign h).toModel.unpack = .finite sign m e h.pos :=
  unpack_pack h sign

theorem toNat_toBits_signed : (signed sign h).toBits.toNat = bitsOf sign m e := toNat_pack h sign

/-- **The parts are read off the bits.** -/
theorem ofFloat_signed :
    (Binary.ofFloat (signed sign h)).significand = m ∧
      (Binary.ofFloat (signed sign h)).exponent = e := by
  have hpos := h.pos
  have hlt := h.lt
  have hleast := h.least
  have hmost := h.most
  simp only [Binary.ofFloat, toNat_toBits_signed, bitsOf, Nat.pow_eq]
  rcases h.full with hfull | hsmall
  · rw [if_pos hfull, if_neg (by omega)]
    exact ⟨by dsimp only; omega, by dsimp only; omega⟩
  · by_cases hfull : 2 ^ 52 ≤ m
    · rw [if_pos hfull, if_neg (by omega)]
      exact ⟨by dsimp only; omega, by dsimp only; omega⟩
    · rw [if_neg hfull, if_pos (by omega)]
      exact ⟨by dsimp only; omega, by dsimp only; omega⟩

theorem isNegative_signed : isNegative (signed sign h) = (sign == .negative) := by
  have hlt := h.lt
  have hmost := h.most
  have hexponent : (if 2 ^ 52 ≤ m then (e + 1075).toNat else 0) < 2 ^ 11 := by
    split <;> omega
  rw [isNegative, toNat_toBits_signed, bitsOf, Nat.pow_eq]
  generalize (if 2 ^ 52 ≤ m then (e + 1075).toNat else 0) = exponent at hexponent
  cases sign with
  | positive =>
    have hsign : Sign.positive.toBitVec.toNat = 0 := rfl
    have hbit : ((Sign.positive.toBitVec.toNat * 2 ^ 11 + exponent) * 2 ^ 52 + m % 2 ^ 52) / 2 ^ 63 % 2
        = 0 := by omega
    rw [hbit]
    rfl
  | negative =>
    have hsign : Sign.negative.toBitVec.toNat = 1 := rfl
    have hbit : ((Sign.negative.toBitVec.toNat * 2 ^ 11 + exponent) * 2 ^ 52 + m % 2 ^ 52) / 2 ^ 63 % 2
        = 1 := by omega
    rw [hbit]
    rfl

/-- **An integer is cut to itself.** -/
theorem truncate_signed {n : ℕ} (hvalue : (m * 2 ^ e : ℚ) = n) :
    truncate (signed sign h) = if sign == .negative then max (-(n : ℤ)) (-2 ^ 63)
      else min (n : ℤ) (2 ^ 63 - 1) := by
  have hnan : (signed sign h).isNaN = false := by
    show (signed sign h).toModel.unpack.isNaN = false
    rw [unpack_signed]
    rfl
  have hinf : (signed sign h).isInf = false := by
    show (signed sign h).toModel.unpack.isInf = false
    rw [unpack_signed]
    rfl
  have hquotient : m * 2 ^ e.toNat / 2 ^ (-e).toNat = n := by
    rw [zpow_eq_div two_ne_zero, ← mul_div_assoc,
      div_eq_iff (pow_ne_zero _ two_ne_zero)] at hvalue
    have hnat : m * 2 ^ e.toNat = n * 2 ^ (-e).toNat := by exact_mod_cast hvalue
    rw [hnat, Nat.mul_div_cancel _ (Nat.two_pow_pos _)]
  obtain ⟨hm, he⟩ := ofFloat_signed sign h
  rw [truncate, hnan, hinf, if_neg Bool.false_ne_true, if_neg Bool.false_ne_true,
    isNegative_signed]
  simp only [hm, he, Nat.pow_eq, hquotient]
  cases sign <;> rfl

end Signed

/-! ## Integers -/

/-- An integer of 64 bits that a double can be: at most 53 bits lie from the first to the last one
that is set. -/
def IsExact (z : ℤ) : Prop :=
  (-2 ^ 63 ≤ z ∧ z < 2 ^ 63) ∧ ∃ m k : ℕ, m < 2 ^ 53 ∧ z.natAbs = m * 2 ^ k

theorem isExact_of_lt {z : ℤ} (h : z.natAbs < 2 ^ 53) : IsExact z :=
  ⟨by omega, z.natAbs, 0, h, by rw [Nat.pow_zero, Nat.mul_one]⟩

/-- A natural number of few bits is a double. -/
theorem exists_isDouble {n m k : ℕ} (hn : 0 < n) (hbound : n ≤ 2 ^ 63) (hm : m < 2 ^ 53)
    (hvalue : n = m * 2 ^ k) : ∃ m e, IsDouble m e ∧ (m * 2 ^ e : ℚ) = n := by
  rcases Nat.lt_or_ge n (2 ^ 53) with hlt | hge
  · obtain ⟨m, e, h, -, hvalue, -⟩ := exists_double_ofNat hn hlt
    exact ⟨m, e, h, hvalue⟩
  · have hlow : 2 ^ n.log2 ≤ n := Nat.log2_self_le hn.ne'
    have hhigh : n < 2 ^ (n.log2 + 1) := Nat.lt_log2_self
    have hlog : 53 ≤ n.log2 := (Nat.le_log2 hn.ne').2 hge
    have hmost : n.log2 < 53 + k := by
      rw [Nat.log2_lt hn.ne', hvalue, Nat.pow_add]
      exact Nat.mul_lt_mul_of_pos_right hm (Nat.two_pow_pos k)
    have hlimit : n.log2 < 64 := (Nat.log2_lt hn.ne').2 (hbound.trans_lt (by decide))
    obtain ⟨e, he⟩ : ∃ e, n.log2 = 52 + e := ⟨n.log2 - 52, by omega⟩
    obtain ⟨q, hq⟩ : 2 ^ e ∣ n := by
      rw [hvalue]
      exact (pow_dvd_pow 2 (by omega)).mul_left m
    rw [he, Nat.pow_add] at hlow
    rw [he, Nat.add_right_comm, Nat.pow_add] at hhigh
    rw [hq, Nat.mul_comm (2 ^ e)] at hlow hhigh
    have hfull : 2 ^ 52 ≤ q := Nat.le_of_mul_le_mul_right hlow (Nat.two_pow_pos e)
    have hbelow : q < 2 ^ 53 := Nat.lt_of_mul_lt_mul_right hhigh
    refine ⟨q, e, ⟨by omega, hbelow, by omega, by omega, .inl hfull⟩, ?_⟩
    rw [zpow_natCast, hq, Nat.cast_mul, Nat.cast_pow, Nat.cast_ofNat, mul_comm]

theorem ofNat_eq_double {n m : ℕ} {e : ℤ} (hn : n ≠ 0) (h : IsDouble m e)
    (hvalue : (m * 2 ^ e : ℚ) = n) : Float.ofNat n = double h := by
  refine ofScientific_eq hn false h ?_
  simpa [← hvalue] using rounds_self m e

/-- **An integer that a double can be comes back as it was.** -/
theorem truncate_ofInt {z : ℤ} (h : IsExact z) : truncate (Float.ofInt z) = z := by
  obtain ⟨⟨hlow, hhigh⟩, m, k, hm, hvalue⟩ := h
  cases z with
  | ofNat n =>
    rcases Nat.eq_zero_or_pos n with rfl | hn
    · decide +kernel
    · rw [Int.ofNat_eq_natCast] at hhigh
      obtain ⟨m, e, hdouble, hvalue⟩ := exists_isDouble hn (by omega) hm hvalue
      have htruncate := truncate_signed .positive hdouble hvalue
      rw [Float.ofInt, ofNat_eq_double hn.ne' hdouble hvalue]
      refine htruncate.trans ?_
      rw [if_neg (by decide), min_eq_left (by omega)]
      rfl
  | negSucc n =>
    obtain ⟨m, e, hdouble, hvalue⟩ := exists_isDouble n.succ_pos (by omega) hm hvalue
    have htruncate := truncate_signed .negative hdouble hvalue
    rw [Float.ofInt, ofNat_eq_double n.succ_ne_zero hdouble hvalue]
    rw [← neg_double] at htruncate
    refine htruncate.trans ?_
    rw [if_pos (by decide), max_eq_left (by omega)]
    rfl

/-! ## Integers in digits -/

/-- A natural number that fits 64 bits is scaled by no power of ten. -/
theorem nearest_ofNat {n : ℕ} (h : n < 2 ^ 64) : nearest n 0 = Float.ofNat n := by
  have hlength : (Nat.toDigits 10 n).length ≤ 20 :=
    (Nat.length_toDigits_le_iff (by decide) (by decide)).2 (h.trans (by decide))
  rcases Nat.eq_zero_or_pos n with rfl | hn
  · decide +kernel
  · have hnear : ¬ ((n = 0 || (((Nat.toDigits 10 n).length : ℤ) + 0 < -400 : Bool)) = true) := by
      simp only [Bool.or_eq_true, decide_eq_true_eq]
      omega
    rw [nearest, if_neg hnear, if_neg (by omega)]
    rfl

/-- The digits of a natural number are read as that number. -/
theorem decimal?_digitChars {n : ℕ} (h : n < 2 ^ 64) :
    decimal? (digitChars n) = some (Float.ofNat n) := by
  have hdigits := decimal?_digits (fun _ => isDigit_digitChars) (digitChars_ne_nil n)
  rwa [ofDigits_digitChars, nearest_ofNat h] at hdigits

theorem toList_toString_ofNat (n : ℕ) : (toString (Int.ofNat n)).toList = digitChars n :=
  String.toList_ofList

theorem toList_toString_negSucc (n : ℕ) :
    (toString (Int.negSucc n)).toList = '-' :: digitChars (n + 1) := by
  show ("-" ++ String.ofList (Nat.toDigits 10 (n + 1))).toList = _
  rw [String.toList_append]
  exact congrArg ('-' :: ·) String.toList_ofList

/-- **The digits of an integer of 64 bits are read as the double that the integer is.** -/
theorem float?_toString {z : ℤ} (hlow : -2 ^ 63 ≤ z) (hhigh : z < 2 ^ 63) :
    float? (toString z) = some (Float.ofInt z) := by
  cases z with
  | ofNat n =>
    have hnumeral : Script.IsNumeral (Nat.toDigits 10 n) :=
      ⟨_, [], fun _ => isDigit_digitChars, nofun, digitChars_ne_nil n, .inl rfl⟩
    rw [Int.ofNat_eq_natCast] at hhigh
    exact (float?_numeral hnumeral).trans (decimal?_digitChars (by omega))
  | negSucc n =>
    rw [float?, toList_toString_negSucc, takeSign]
    dsimp only
    rw [decimal?_digitChars (by omega)]
    rfl

end Number
end VisualBlocks

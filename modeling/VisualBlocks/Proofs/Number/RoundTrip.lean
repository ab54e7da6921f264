import VisualBlocks.Proofs.Number.Bits
import VisualBlocks.Proofs.Number.Numeral

/-!
# What is written is read back

A number is written with the fewest digits that are nearer to it than to any other double, and a
decimal is read as the double to which it belongs.

* The reader rounds once, if the decimal is out of reach of exact factors, and otherwise computes
  with two doubles that are exact (`ofScientific_eq`); what it takes for zero or for infinity
  without rounding belongs to no double (`nearest_eq`).
* The digits that are found are covered by the magnitude, and what it covers belongs to it
  (`Binary.IsFinite.rounds_shortest`).
* The places of the digits, with zeros on either side, do not change the value
  (`Decimal.decimal?_positional`).

**A number that is finite is read back from its text** (`Legible.float?_literal`), unless it is a
zero with a sign.
-/

set_option autoImplicit false

namespace VisualBlocks
namespace Number

open Float.Model Float.Model.UnpackedFloat

/-- An integral power as a quotient of natural ones. -/
theorem zpow_eq_div {b : ℚ} (hb : b ≠ 0) (e : ℤ) : b ^ e = b ^ e.toNat / b ^ (-e).toNat := by
  rw [← zpow_natCast, ← zpow_natCast, ← zpow_sub₀ hb]
  congr 1
  omega

/-! ## Decimals as doubles -/

/-- The double `m * 2 ^ e`. -/
def double {m : ℕ} {e : ℤ} (h : IsDouble m e) : Float :=
  .ofModel (Float.Model.pack (.finite .positive m e h.pos))

section Double

variable {m m₁ m₂ : ℕ} {e e₁ e₂ : ℤ}

theorem unpack_double (h : IsDouble m e) : (double h).toModel.unpack = .finite .positive m e h.pos :=
  unpack_pack h .positive

theorem double_mul (h₁ : IsDouble m₁ e₁) (h₂ : IsDouble m₂ e₂) (hfull : 2 ^ 52 ≤ m₁)
    (h : IsDouble m e) (hrounds : Rounds (m₁ * 2 ^ e₁ * (m₂ * 2 ^ e₂)) m e) :
    double h₁ * double h₂ = double h := by
  have hvalue : (m₁ * 2 ^ e₁ * (m₂ * 2 ^ e₂) : ℚ) = m₁ * m₂ * 2 ^ (e₁ + e₂) := by
    rw [zpow_add₀ two_ne_zero]
    ring
  have hlog : 52 ≤ (m₁ * m₂).log2 :=
    (Nat.le_log2 (Nat.mul_pos h₁.pos h₂.pos).ne').2 (hfull.trans (Nat.le_mul_of_pos_right _ h₂.pos))
  show Float.ofModel (Float.Model.pack (UnpackedFloat.mul Format.binary64 _ _)) = _
  rw [unpack_double h₁, unpack_double h₂, mul_of_rounds h₁.pos h₂.pos hlog h (hvalue ▸ hrounds)]
  rfl

theorem double_div (h₁ : IsDouble m₁ e₁) (h₂ : IsDouble m₂ e₂) (h : IsDouble m e)
    (hrounds : Rounds (m₁ * 2 ^ e₁ / (m₂ * 2 ^ e₂)) m e) : double h₁ / double h₂ = double h := by
  have hvalue : (m₁ * 2 ^ e₁ / (m₂ * 2 ^ e₂) : ℚ) = m₁ / m₂ * 2 ^ (e₁ - e₂) := by
    rw [zpow_sub₀ two_ne_zero, mul_div_mul_comm]
  show Float.ofModel (Float.Model.pack (UnpackedFloat.div Format.binary64 _ _)) = _
  rw [unpack_double h₁, unpack_double h₂, div_of_rounds h₁.pos h₂.pos h (hvalue ▸ hrounds)]
  rfl

end Double

/-- A natural number of up to 53 bits is a double. -/
theorem exists_double_ofNat {n : ℕ} (hn : 0 < n) (hlt : n < 2 ^ 53) :
    ∃ m e, ∃ h : IsDouble m e, 2 ^ 52 ≤ m ∧ (m * 2 ^ e : ℚ) = n ∧ n.toUInt64.toFloat = double h := by
  have hlog : n.log2 < 53 := (Nat.log2_lt hn.ne').2 hlt
  have hlow : 2 ^ n.log2 ≤ n := Nat.log2_self_le hn.ne'
  have hhigh : n < 2 ^ (n.log2 + 1) := Nat.lt_log2_self
  obtain ⟨k, hk⟩ : ∃ k, n.log2 + k = 52 := ⟨52 - n.log2, by omega⟩
  have hfull : 2 ^ 52 ≤ n * 2 ^ k := by
    rw [← hk, Nat.pow_add]
    exact Nat.mul_le_mul_right _ hlow
  have hbelow : n * 2 ^ k < 2 ^ 53 := by
    have hpow : 2 ^ 53 = 2 ^ (n.log2 + 1) * 2 ^ k := by
      rw [← Nat.pow_add]
      congr 1
      omega
    rw [hpow]
    exact Nat.mul_lt_mul_of_pos_right hhigh (Nat.two_pow_pos k)
  have hdouble : IsDouble (n * 2 ^ k) (-k) :=
    ⟨by omega, hbelow, by omega, by omega, .inl hfull⟩
  have hvalue : (((n * 2 ^ k : ℕ) : ℚ) * 2 ^ (-k : ℤ)) = n := by
    push_cast
    rw [zpow_neg, zpow_natCast, mul_inv_cancel_right₀ (pow_ne_zero _ two_ne_zero)]
  refine ⟨n * 2 ^ k, -k, hdouble, hfull, hvalue, ?_⟩
  have hnat : n.toUInt64.toNat = n := by
    rw [Nat.toUInt64, UInt64.toNat_ofNat']
    exact Nat.mod_eq_of_lt (by omega)
  have htarget : Format.binary64.targetExponent (totalExponent n 0) = -k := by
    rw [targetExponent_eq]
    omega
  have hround : UnpackedFloat.round Format.binary64 .positive n 0 =
      .finite .positive (n * 2 ^ k) (-k) hdouble.pos := by
    have hamount : (0 - -(k : ℤ)).toNat = k := by omega
    rw [UnpackedFloat.round, htarget, decreaseExponent, hamount]
    dsimp only
    rw [zero_sub, Nat.shiftLeft_eq]
    refine roundWithAccuracy_of_rounds _ ?_ hdouble.targetExponent.ge hdouble (rounds_self _ _)
    rw [mul_div_cancel_right₀ _ (two_zpow_pos _).ne']
    exact .exact _
  show Float.ofModel (Float.Model.pack (UnpackedFloat.normalize Format.binary64 n.toUInt64.toNat 0 .positive)) = _
  have hsign : compare (n : ℤ) 0 = .gt := Int.compare_eq_gt.2 (by omega)
  simp only [hnat, UnpackedFloat.normalize, hsign, Int.toNat_natCast, hround]
  rfl

/-- Is the number, which is not negative, the power of ten? -/
def isPowerOfTen (x : Float) (i : ℕ) : Bool :=
  let b := Binary.ofFloat x
  x.isFinite && !(x == 0) && !isNegative x && decide (2 ^ 52 ≤ b.significand) &&
    b.significand * 2 ^ b.exponent.toNat == 10 ^ i * 2 ^ (-b.exponent).toNat

theorem isPowerOfTen_table : ∀ i : Fin Float.exactlyRepresentablePowersOfTen.size,
    isPowerOfTen Float.exactlyRepresentablePowersOfTen[i] i = true := by
  decide +kernel

theorem double_of_isPowerOfTen {x : Float} {i : ℕ} (h : isPowerOfTen x i = true) :
    ∃ m e, ∃ h : IsDouble m e, 2 ^ 52 ≤ m ∧ (m * 2 ^ e : ℚ) = 10 ^ i ∧ x = double h := by
  rw [isPowerOfTen] at h
  simp only [Bool.and_eq_true, Bool.not_eq_true', decide_eq_true_eq, beq_iff_eq] at h
  obtain ⟨⟨⟨⟨hfinite, hzero⟩, hpositive⟩, hfull⟩, hvalue⟩ := h
  have hzero' : ¬ (x == 0) = true := Bool.eq_false_iff.1 hzero
  have hdouble := isDouble_ofFloat hfinite hzero'
  refine ⟨_, _, hdouble, hfull, ?_, ?_⟩
  · rw [zpow_eq_div two_ne_zero, ← mul_div_assoc, div_eq_iff (by positivity)]
    exact_mod_cast hvalue
  · have hpack := eq_pack hfinite hzero'
    rwa [signOf, if_neg (Bool.eq_false_iff.1 hpositive)] at hpack

/-- **A decimal is the double to which it belongs.** -/
theorem ofScientific_eq {n k m : ℕ} {e : ℤ} (hn : n ≠ 0) (negative : Bool) (h : IsDouble m e)
    (hrounds : Rounds (n * 10 ^ (if negative then -(k : ℤ) else k)) m e) :
    Float.ofScientific n negative k = double h := by
  rw [Float.ofScientific]
  split
  · next hfast =>
    obtain ⟨m₁, e₁, h₁, hfull, hvalue₁, hdouble₁⟩ :=
      exists_double_ofNat (Nat.pos_of_ne_zero hn) hfast.1
    have hk : k < Float.exactlyRepresentablePowersOfTen.size := Nat.lt_succ_of_le hfast.2
    obtain ⟨m₂, e₂, h₂, -, hvalue₂, hdouble₂⟩ := double_of_isPowerOfTen (isPowerOfTen_table ⟨k, hk⟩)
    have htable : Float.exactlyRepresentablePowersOfTen[k] = double h₂ := hdouble₂
    dsimp only
    rw [htable, hdouble₁]
    cases negative with
    | false =>
      refine double_mul h₁ h₂ hfull h ?_
      rw [hvalue₁, hvalue₂]
      simpa using hrounds
    | true =>
      refine double_div h₁ h₂ h ?_
      rw [hvalue₁, hvalue₂]
      simpa [div_eq_mul_inv] using hrounds
  · have hslow : UnpackedFloat.ofScientific Format.binary64 n
        (if negative then Int.negOfNat k else Int.ofNat k) = .finite .positive m e h.pos := by
      refine ofScientific_of_rounds hn h ?_
      cases negative with
      | false => exact hrounds
      | true =>
        rw [Int.negOfNat_eq]
        exact hrounds
    show Float.ofModel (Float.Model.pack (UnpackedFloat.ofScientific Format.binary64 n
        (if negative then Int.negOfNat k else Int.ofNat k))) = _
    rw [hslow]
    rfl

theorem digits_bounds {n : ℕ} (hn : n ≠ 0) :
    10 ^ ((Nat.toDigits 10 n).length - 1) ≤ n ∧ n < 10 ^ (Nat.toDigits 10 n).length := by
  have hpos : 0 < (Nat.toDigits 10 n).length := List.length_pos_iff.2 Nat.toDigits_ne_nil
  refine ⟨?_, (Nat.length_toDigits_le_iff (by decide) hpos).1 le_rfl⟩
  rcases Nat.eq_zero_or_pos ((Nat.toDigits 10 n).length - 1) with hone | hmore
  · rw [hone]
    exact Nat.one_le_iff_ne_zero.2 hn
  · have := (Nat.length_toDigits_le_iff (b := 10) (n := n) (by decide) hmore).not
    omega

/-- **A decimal is read as the double to which it belongs**: it is neither taken for zero nor for
infinite. -/
theorem nearest_eq {n m : ℕ} {k e : ℤ} (hn : n ≠ 0) (h : IsDouble m e)
    (hrounds : Rounds (n * 10 ^ k) m e) : nearest n k = double h := by
  have hten : (10 : ℚ) ≠ 0 := by norm_num
  have hpos : (0 : ℚ) < 10 ^ k := zpow_pos (by norm_num) k
  obtain ⟨hlow, hhigh⟩ := digits_bounds hn
  have hlength : 0 < (Nat.toDigits 10 n).length := List.length_pos_iff.2 Nat.toDigits_ne_nil
  rw [nearest]
  generalize (Nat.toDigits 10 n).length = length at *
  have hsmall : ¬ (length : ℤ) + k < -400 := by
    intro hlead
    have hpow : (2 : ℚ) ^ (-1076 : ℤ) < 2 ^ (3 * ((length : ℤ) + k)) :=
      calc (2 : ℚ) ^ (-1076 : ℤ) < n * 10 ^ k := hrounds.two_zpow_lt h
        _ ≤ 10 ^ (length : ℤ) * 10 ^ k :=
          mul_le_mul_of_nonneg_right (by exact_mod_cast hhigh.le) hpos.le
        _ = 10 ^ ((length : ℤ) + k) := (zpow_add₀ hten _ _).symm
        _ ≤ 2 ^ (3 * ((length : ℤ) + k)) := ten_zpow_le_two_zpow (by omega)
    have := lt_of_two_zpow_lt hpow
    omega
  have hlarge : ¬ (length : ℤ) + k > 400 := by
    intro hlead
    have hpow : (2 : ℚ) ^ (3 * ((length - 1 : ℕ) + k)) < 2 ^ (53 + e) :=
      calc (2 : ℚ) ^ (3 * ((length - 1 : ℕ) + k)) ≤ 10 ^ ((length - 1 : ℕ) + k) :=
            two_zpow_le_ten_zpow (by omega)
        _ = 10 ^ ((length - 1 : ℕ) : ℤ) * 10 ^ k := zpow_add₀ hten _ _
        _ ≤ n * 10 ^ k := mul_le_mul_of_nonneg_right (by exact_mod_cast hlow) hpos.le
        _ < 2 ^ (53 + e) := hrounds.lt_two_zpow h
    have := lt_of_two_zpow_lt hpow
    have := h.most
    omega
  rw [if_neg (by simp [hn, hsmall]), if_neg hlarge]
  refine ofScientific_eq hn _ h ?_
  have hexponent : (if decide (k < 0) then -(k.natAbs : ℤ) else k.natAbs) = k := by
    by_cases hk : k < 0
    · rw [if_pos (by simpa using hk)]
      omega
    · rw [if_neg (by simpa using hk)]
      omega
  rwa [hexponent]

/-! ## The shortest digits -/

/-- The exact value of a decimal. -/
def Decimal.value (d : Decimal) : ℚ := d.digits * 10 ^ d.exponent

/-- Units compare a multiple of the magnitude with a multiple of the power of ten. -/
theorem Binary.unit_le_iff (x : Binary) (k : ℤ) (a b : ℚ) :
    a * (x.inUnits k).unit ≤ b * (x.inUnits k).den ↔ a * 2 ^ x.exponent ≤ b * 10 ^ k := by
  have hten : (10 : ℚ) ≠ 0 := by norm_num
  rw [zpow_eq_div two_ne_zero, zpow_eq_div hten]
  simp only [inUnits, Nat.pow_eq]
  push_cast
  rw [← mul_div_assoc, ← mul_div_assoc, div_le_div_iff₀ (by positivity) (by positivity)]
  refine iff_of_eq (congrArg₂ (· ≤ ·) ?_ ?_)
  · ring
  · ring

theorem Binary.le_unit_iff (x : Binary) (k : ℤ) (a b : ℚ) :
    b * (x.inUnits k).den ≤ a * (x.inUnits k).unit ↔ b * 10 ^ k ≤ a * 2 ^ x.exponent := by
  have hten : (10 : ℚ) ≠ 0 := by norm_num
  rw [zpow_eq_div two_ne_zero, zpow_eq_div hten]
  simp only [inUnits, Nat.pow_eq]
  push_cast
  rw [← mul_div_assoc, ← mul_div_assoc, div_le_div_iff₀ (by positivity) (by positivity)]
  refine iff_of_eq (congrArg₂ (· ≤ ·) ?_ ?_)
  · ring
  · ring

/-- Zeros at the end of the digits are worth as much in the exponent. -/
theorem Decimal.value_stripZeros (fuel : ℕ) (d : Decimal) :
    (Decimal.stripZeros fuel d).value = d.value := by
  induction fuel generalizing d with
  | zero => rfl
  | succ fuel ih =>
    rw [stripZeros]
    split
    · next hzero =>
      have hdigits : (d.digits : ℚ) = 10 * (d.digits / 10 : ℕ) := by
        exact_mod_cast (by omega : d.digits = 10 * (d.digits / 10))
      rw [ih, value, value, hdigits, zpow_add_one₀ (by norm_num)]
      ring
    · rfl

theorem Binary.value_exact (x : Binary) : x.exact.value = x.significand * 2 ^ x.exponent := by
  have hten : (10 : ℚ) = 2 * 5 := by norm_num
  rw [exact, Decimal.value]
  simp only [Nat.pow_eq]
  push_cast
  rw [mul_assoc, mul_assoc]
  congr 1
  rcases le_total 0 x.exponent with hnonneg | hneg
  · obtain ⟨n, hn⟩ := Int.eq_ofNat_of_zero_le hnonneg
    rw [hn, min_eq_right (by omega), zpow_natCast]
    simp
  · obtain ⟨n, hn⟩ := Int.exists_eq_neg_ofNat hneg
    rw [hn, min_eq_left (by omega), Int.toNat_neg_natCast, neg_neg, Int.toNat_natCast, hten, mul_zpow,
      zpow_neg 5, zpow_natCast 5, pow_zero, one_mul, mul_left_comm,
      mul_inv_cancel₀ (pow_ne_zero _ (by norm_num)), mul_one]

/-- What is found on a grid is on it and is covered. -/
theorem Binary.covers_of_onGrid? {tie : Tie} {x : Binary} {k : ℤ} {d : Decimal}
    (h : x.onGrid? tie k = some d) : d.exponent = k ∧ x.covers (x.inUnits k) d.digits = true := by
  rw [onGrid?] at h
  split at h
  · next hbelow _ =>
    obtain rfl := Option.some.inj h
    exact ⟨rfl, hbelow⟩
  · next _ habove =>
    obtain rfl := Option.some.inj h
    exact ⟨rfl, habove⟩
  · cases h
  · next hbelow habove =>
    split at h <;> obtain rfl := Option.some.inj h
    · exact ⟨rfl, hbelow⟩
    · exact ⟨rfl, habove⟩
    · refine ⟨rfl, ?_⟩
      dsimp only
      split
      · exact hbelow
      · exact habove

/-- The magnitude of a double. -/
structure Binary.IsFinite (x : Binary) : Prop where
  double : IsDouble x.significand x.exponent
  narrow : x.narrowBelow = true ↔ x.significand = 2 ^ 52 ∧ -1074 < x.exponent

namespace Binary.IsFinite

variable {x : Binary} (hx : x.IsFinite)
include hx

/-- **What a magnitude covers belongs to it.** -/
theorem rounds_of_covers {k : ℤ} {c : ℕ} (h : x.covers (x.inUnits k) c = true) :
    Rounds (c * 10 ^ k) x.significand x.exponent := by
  have hpos := hx.double.pos
  have htwo := two_zpow_pos x.exponent
  -- the quarters of the last place that are covered below
  obtain ⟨gap, hgap, hnarrow, hwide⟩ : ∃ gap : ℕ, (if x.narrowBelow then 1 else 2) = gap ∧
      (x.significand = 2 ^ 52 → -1074 < x.exponent → gap = 1) ∧ gap ≤ 2 := by
    refine ⟨_, rfl, fun hpower hleast => if_pos (hx.narrow.2 ⟨hpower, hleast⟩), ?_⟩
    split <;> omega
  have hcast : ((4 * x.significand - gap : ℕ) : ℚ) = 4 * x.significand - gap := by
    rw [Nat.cast_sub (by omega)]
    push_cast
    rfl
  have hgapQ : (gap : ℚ) * 2 ^ x.exponent ≤ 2 * 2 ^ x.exponent :=
    mul_le_mul_of_nonneg_right (by exact_mod_cast hwide) htwo.le
  -- the comparisons of natural numbers are those of the magnitude
  have hlow : (4 * x.significand - gap) * (x.inUnits k).unit ≤ 4 * c * (x.inUnits k).den ↔
      (4 * x.significand - gap) * (2 : ℚ) ^ x.exponent ≤ 4 * c * 10 ^ k := by
    rw [← x.unit_le_iff k, ← hcast]
    norm_cast
  have hhigh : 4 * c * (x.inUnits k).den ≤ (4 * x.significand + 2) * (x.inUnits k).unit ↔
      4 * c * (10 : ℚ) ^ k ≤ (4 * x.significand + 2) * 2 ^ x.exponent := by
    rw [← x.le_unit_iff k]
    norm_cast
  have hlow' : (4 * x.significand - gap) * (x.inUnits k).unit < 4 * c * (x.inUnits k).den ↔
      (4 * x.significand - gap) * (2 : ℚ) ^ x.exponent < 4 * c * 10 ^ k := by
    rw [← not_le, ← not_le, ← x.le_unit_iff k, ← hcast]
    norm_cast
  have hhigh' : 4 * c * (x.inUnits k).den < (4 * x.significand + 2) * (x.inUnits k).unit ↔
      4 * c * (10 : ℚ) ^ k < (4 * x.significand + 2) * 2 ^ x.exponent := by
    rw [← not_le, ← not_le, ← x.unit_le_iff k]
    norm_cast
  rw [covers] at h
  simp only [hgap] at h
  split at h
  · next heven =>
    simp only [Bool.and_eq_true, decide_eq_true_eq] at h
    rw [hlow, hhigh] at h
    refine ⟨by linarith, fun hpower hleast => ?_, by linarith, .inl (beq_iff_eq.1 heven)⟩
    rw [hnarrow hpower hleast] at h
    push_cast at h
    linarith
  · simp only [Bool.and_eq_true, decide_eq_true_eq] at h
    rw [hlow', hhigh'] at h
    refine ⟨by linarith, fun hpower hleast => ?_, by linarith, .inr ⟨by linarith, by linarith⟩⟩
    rw [hnarrow hpower hleast] at h
    push_cast at h
    linarith

/-- **The shortest digits belong to the magnitude.** -/
theorem rounds_shortest (tie : Tie) :
    Rounds (x.shortest tie).value x.significand x.exponent := by
  rw [shortest, if_neg hx.double.pos.ne']
  rw [Decimal.value_stripZeros]
  rcases hfound : (List.range 17).findSome? fun n : ℕ => x.onGrid? tie (x.scale - 1 - n) with _ | d
  · rw [Option.getD_none, value_exact]
    exact rounds_self _ _
  · obtain ⟨n, -, hgrid⟩ := List.exists_of_findSome?_eq_some hfound
    obtain ⟨hexponent, hcovers⟩ := covers_of_onGrid? hgrid
    rw [Option.getD_some, Decimal.value, hexponent]
    exact hx.rounds_of_covers hcovers

end Binary.IsFinite

/-! ## Reading back -/

theorem ofDigits_digitChars (n : ℕ) : ofDigits (digitChars n) = n := Nat.ofDigitChars_ten_toDigits

theorem ofDigits_append_zeros (ds : List Char) (n : ℕ) :
    ofDigits (ds ++ List.replicate n '0') = 10 ^ n * ofDigits ds := by
  show Nat.ofDigitChars 10 (ds ++ List.replicate n '0') 0 = 10 ^ n * ofDigits ds
  rw [Nat.ofDigitChars_append, Nat.ofDigitChars_replicate_zero]
  rfl

theorem ofDigits_zeros_append (ds : List Char) (n : ℕ) :
    ofDigits (List.replicate n '0' ++ ds) = ofDigits ds := by
  show Nat.ofDigitChars 10 (List.replicate n '0' ++ ds) 0 = ofDigits ds
  rw [Nat.ofDigitChars_append, Nat.ofDigitChars_replicate_zero, Nat.mul_zero]
  rfl

/-- **A decimal is read with the value with which it is written.** -/
theorem Decimal.decimal?_positional (d : Decimal) :
    ∃ n k, decimal? d.positional = some (nearest n k) ∧ (n * 10 ^ k : ℚ) = d.value := by
  rw [positional, value]
  dsimp only
  split
  · next hexponent =>
    refine ⟨_, _, decimal?_digits ?_ (List.append_ne_nil_of_left_ne_nil (digitChars_ne_nil _) _), ?_⟩
    · exact fun c hc => (List.mem_append.1 hc).elim isDigit_digitChars isDigit_zeros
    · obtain ⟨n, hn⟩ := Int.eq_ofNat_of_zero_le hexponent
      rw [ofDigits_append_zeros, ofDigits_digitChars, hn, Int.toNat_natCast, zpow_natCast]
      push_cast
      ring
  · next hexponent =>
    obtain ⟨n, hn⟩ := Int.exists_eq_neg_ofNat (not_le.1 hexponent).le
    rw [hn, neg_neg, Int.toNat_natCast]
    split
    · next hplaces =>
      refine ⟨_, _, decimal?_point (fun c hc => isDigit_digitChars (List.mem_of_mem_take hc))
        (fun c hc => isDigit_digitChars (List.mem_of_mem_drop hc))
        (take_digitChars_ne_nil hplaces), ?_⟩
      rw [List.take_append_drop, ofDigits_digitChars, List.length_drop]
      congr 3
      omega
    · next hplaces =>
      refine ⟨_, _, decimal?_point (List.forall_mem_singleton.2 (by decide))
        (fun c hc => (List.mem_append.1 hc).elim isDigit_zeros isDigit_digitChars)
        (List.cons_ne_nil _ _), ?_⟩
      rw [← List.append_assoc]
      have hstart : ['0'] ++ List.replicate (n - (digitChars d.digits).length) '0' =
          List.replicate (n - (digitChars d.digits).length + 1) '0' := rfl
      rw [hstart, ofDigits_zeros_append, ofDigits_digitChars, List.length_append,
        List.length_replicate]
      congr 3
      omega

section Finite

variable {x : Float} (hfinite : x.isFinite = true) (hzero : ¬ (x == 0) = true)
include hfinite hzero

theorem isFinite_ofFloat : (Binary.ofFloat x).IsFinite :=
  ⟨isDouble_ofFloat hfinite hzero, narrowBelow_iff⟩

/-- The digits of a number read as its magnitude. -/
theorem decimal?_shortest (tie : Tie) :
    decimal? ((Binary.ofFloat x).shortest tie).positional =
      some (double (isDouble_ofFloat hfinite hzero)) := by
  have hx := isFinite_ofFloat hfinite hzero
  obtain ⟨n, k, hread, hvalue⟩ := ((Binary.ofFloat x).shortest tie).decimal?_positional
  have hrounds := hx.rounds_shortest tie
  rw [← hvalue] at hrounds
  have hn : n ≠ 0 := by
    rintro rfl
    have hlt := hrounds.two_zpow_lt hx.double
    rw [Nat.cast_zero, zero_mul] at hlt
    exact (two_zpow_pos _).not_gt hlt
  rw [hread, nearest_eq hn hx.double hrounds]

/-- A number is its magnitude, with its sign. -/
theorem eq_double : x = if isNegative x then -double (isDouble_ofFloat hfinite hzero)
    else double (isDouble_ofFloat hfinite hzero) := by
  have hpack := eq_pack hfinite hzero
  rw [signOf] at hpack
  split at hpack
  · next hnegative =>
    rw [if_pos hnegative]
    refine hpack.trans ?_
    show _ = Float.ofModel (Float.Model.pack (UnpackedFloat.neg (double _).toModel.unpack))
    rw [unpack_double]
    rfl
  · next hpositive =>
    rw [if_neg hpositive]
    exact hpack

end Finite

/-! ## Texts of numbers -/

/-- A number that is what its text says: infinity and what is not a number have no digits, and a
zero is written without a sign. -/
def Legible (x : Float) : Prop :=
  x.isFinite = true ∧ ((x == 0) = true → isNegative x = false)

section Legible

variable {x : Float} (h : Legible x)
include h

/-- **The text of a number is a numeral for its magnitude**, behind a minus sign if the number is
negative. -/
theorem Legible.literal_eq : ∃ cs y, Script.IsNumeral cs ∧ decimal? cs = some y ∧
    ((literal x).toList = cs ∧ x = y ∨ (literal x).toList = '-' :: cs ∧ x = -y) := by
  obtain ⟨hfinite, hsign⟩ := h
  by_cases hzero : (x == 0) = true
  · refine ⟨['0'], 0, ?_, rfl, .inl ⟨?_, eq_zero hzero (hsign hzero)⟩⟩
    · exact ⟨['0'], [], List.forall_mem_singleton.2 (by decide), nofun, List.cons_ne_nil _ _, .inl rfl⟩
    · rw [literal, if_pos hzero]
      rfl
  · refine ⟨_, _, Decimal.isNumeral_positional _, decimal?_shortest hfinite hzero .up, ?_⟩
    have hword := literalWord?_of_isFinite hfinite
    have htext : literal x = withSign x ((Binary.ofFloat x).shortest .up).positional := by
      rw [literalWord?, if_neg hzero] at hword
      rw [literal, if_neg hzero, plain]
      split at hword
      · cases hword
      · next hnan =>
        rw [if_neg hnan]
        split at hword
        · cases hword
        · next hinf => rw [if_neg hinf]
    have hdouble := eq_double hfinite hzero
    rw [htext, withSign, String.toList_ofList]
    split at hdouble
    · next hnegative =>
      rw [if_pos hnegative]
      exact .inr ⟨rfl, hdouble⟩
    · next hpositive =>
      rw [if_neg hpositive]
      exact .inl ⟨rfl, hdouble⟩

/-- **What is written is read back.** -/
theorem Legible.float?_literal : float? (literal x) = some x := by
  obtain ⟨cs, y, hnumeral, hread, ⟨htext, rfl⟩ | ⟨htext, rfl⟩⟩ := h.literal_eq
  · rw [← hread, ← float?_numeral hnumeral, ← htext, String.ofList_toList]
  · rw [float?, htext, takeSign]
    dsimp only
    rw [hread]
    rfl

end Legible

end Number
end VisualBlocks

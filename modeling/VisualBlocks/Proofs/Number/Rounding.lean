import Mathlib

/-!
# Rounding to doubles

A number that is not a double is rounded to a double near it.  `Rounds v m e` says, of exact
numbers, that `v` belongs to the double `m * 2 ^ e`: it is not farther from it than half of the way
to a neighbour, and just half of the way only if `m` is even.  **Whatever is rounded to doubles
becomes the double to which it belongs** (`roundWithAccuracy_of_rounds`), and so do products,
quotients and decimals.

Rounding cuts off the last bits of a mantissa and remembers two of them (`Cuts`).  It is done twice,
since a mantissa of ones can be rounded up to one more bit.
-/

set_option autoImplicit false

namespace VisualBlocks
namespace Number

open Float.Model Float.Model.UnpackedFloat

/-! ## Cutting off bits -/

/-- The mantissa is what is left of the number, and the two bits say what has been cut off. -/
def Cuts (em : ExtendedMantissa) (q : ℚ) : Prop :=
  match em.roundBit, em.stickyBit with
  | false, false => q = em.mantissa
  | false, true => em.mantissa < q ∧ q < em.mantissa + 1 / 2
  | true, false => q = em.mantissa + 1 / 2
  | true, true => em.mantissa + 1 / 2 < q ∧ q < em.mantissa + 1

namespace Cuts

variable {em : ExtendedMantissa} {q : ℚ}

theorem floor_le (h : Cuts em q) : (em.mantissa : ℚ) ≤ q := by
  obtain ⟨m, r, s⟩ := em
  cases r <;> cases s <;> simp only [Cuts] at h <;> linarith

theorem lt_floor (h : Cuts em q) : q < em.mantissa + 1 := by
  obtain ⟨m, r, s⟩ := em
  cases r <;> cases s <;> simp only [Cuts] at h <;> linarith

theorem exact (m : ℕ) : Cuts (.ofMantissaAndAccuracy m .exact) m := rfl

theorem fraction (m num den : ℕ) (h : num < den) :
    Cuts (.ofMantissaAndAccuracy m (accuracyOfFraction num den)) (m + num / den) := by
  have hden : (0 : ℚ) < den := by exact_mod_cast Nat.zero_lt_of_lt h
  have hlt : (num : ℚ) / den < 1 := by
    rw [div_lt_one hden]
    exact_mod_cast h
  rw [accuracyOfFraction]
  split
  · next hzero =>
    simp only [hzero, Nat.cast_zero, zero_div, add_zero]
    exact exact m
  · next hzero =>
    have hpos : (0 : ℚ) < num / den := div_pos (by exact_mod_cast Nat.pos_of_ne_zero hzero) hden
    rcases hcompare : compare (2 * num) den with _ | _ | _
    · have hhalf : (num : ℚ) / den < 1 / 2 := by
        rw [div_lt_div_iff₀ hden two_pos]
        have := Nat.compare_eq_lt.1 hcompare
        exact_mod_cast (by omega : num * 2 < 1 * den)
      show (m : ℚ) < m + num / den ∧ (m : ℚ) + num / den < m + 1 / 2
      exact ⟨by linarith, by linarith⟩
    · have hhalf : (num : ℚ) / den = 1 / 2 := by
        rw [div_eq_div_iff hden.ne' two_ne_zero]
        have := Nat.compare_eq_eq.1 hcompare
        exact_mod_cast (by omega : num * 2 = 1 * den)
      show (m : ℚ) + num / den = m + 1 / 2
      rw [hhalf]
    · have hhalf : 1 / 2 < (num : ℚ) / den := by
        rw [div_lt_div_iff₀ two_pos hden]
        have := Nat.compare_eq_gt.1 hcompare
        exact_mod_cast (by omega : 1 * den < num * 2)
      show (m : ℚ) + 1 / 2 < m + num / den ∧ (m : ℚ) + num / den < m + 1
      exact ⟨by linarith, by linarith⟩

/-- Cutting off one more bit halves the number. -/
theorem shiftRightOne (h : Cuts em q) : Cuts em.shiftRightOne (q / 2) := by
  obtain ⟨m, r, s⟩ := em
  have hparts : ((m % 2 : ℕ) : ℚ) + 2 * ((m / 2 : ℕ) : ℚ) = m := by exact_mod_cast Nat.mod_add_div m 2
  rcases Nat.mod_two_eq_zero_or_one m with hlast | hlast <;>
    cases r <;> cases s <;>
      simp only [Cuts, ExtendedMantissa.shiftRightOne, hlast, Nat.cast_zero, Nat.cast_one] at h hparts ⊢ <;>
      simp <;>
      first
        | linarith
        | exact ⟨by linarith, by linarith⟩

theorem shiftRight (h : Cuts em q) (n : ℕ) : Cuts (em >>> n) (q / 2 ^ n) := by
  show Cuts (n.repeat ExtendedMantissa.shiftRightOne em) (q / 2 ^ n)
  induction n with
  | zero => rwa [Nat.repeat, pow_zero, div_one]
  | succ n ih =>
    rw [Nat.repeat, pow_succ, ← div_div]
    exact ih.shiftRightOne

end Cuts

/-- The natural number is the nearest one, or an even one among the nearest. -/
structure Nearest (q : ℚ) (m : ℕ) : Prop where
  low : m - 1 / 2 ≤ q
  high : q ≤ m + 1 / 2
  tie : m % 2 = 0 ∨ (m - 1 / 2 < q ∧ q < m + 1 / 2)

/-- **The rounded mantissa is the nearest.** -/
theorem Cuts.roundedMantissa {em : ExtendedMantissa} {q : ℚ} (h : Cuts em q) {m : ℕ}
    (hm : Nearest q m) : em.roundedMantissa = m := by
  obtain ⟨hlow, hhigh, htie⟩ := hm
  obtain ⟨n, r, s⟩ := em
  have hle {a b : ℕ} (hab : (a : ℚ) < b + 1) : a ≤ b := by
    have : a < b + 1 := by exact_mod_cast hab
    omega
  cases r <;> cases s <;> simp only [Cuts] at h <;>
    simp only [ExtendedMantissa.roundedMantissa, ExtendedMantissa.accuracy,
      Accuracy.roundToNearestEven]
  · exact Nat.le_antisymm (hle (by linarith)) (hle (by linarith))
  · exact Nat.le_antisymm (hle (by linarith)) (hle (by linarith))
  · have hle' : n ≤ m := hle (by linarith)
    have hge : m ≤ n + 1 := hle (by push_cast; linarith)
    have heven : m % 2 = 0 := by
      refine htie.resolve_right fun ⟨hlow', hhigh'⟩ => ?_
      have : m < n + 1 := by exact_mod_cast (by linarith : (m : ℚ) < n + 1)
      have : n < m := by exact_mod_cast (by linarith : (n : ℚ) < m)
      omega
    omega
  · have : n < m := by exact_mod_cast (by linarith : (n : ℚ) < m)
    have : m ≤ n + 1 := hle (by push_cast; linarith)
    omega

/-! ## Doubles -/

/-- The mantissa and the exponent of a positive double: the mantissa has all its bits, or the
exponent is the least one. -/
structure IsDouble (m : ℕ) (e : ℤ) : Prop where
  pos : 0 < m
  lt : m < 2 ^ 53
  least : -1074 ≤ e
  most : e ≤ 971
  full : 2 ^ 52 ≤ m ∨ e = -1074

/-- The number belongs to the double `m * 2 ^ e`.  Where the mantissa is a power of two, the next
double below is nearer than the next one above. -/
structure Rounds (v : ℚ) (m : ℕ) (e : ℤ) : Prop where
  low : (m - 1 / 2) * 2 ^ e ≤ v
  narrow : m = 2 ^ 52 → -1074 < e → (m - 1 / 4) * 2 ^ e ≤ v
  high : v ≤ (m + 1 / 2) * 2 ^ e
  tie : m % 2 = 0 ∨ ((m - 1 / 2) * 2 ^ e < v ∧ v < (m + 1 / 2) * 2 ^ e)

/-- The exponent with which a number below `2 ^ t` is written. -/
theorem targetExponent_binary64 (t : ℤ) :
    Format.binary64.targetExponent t = max (t - 53) (-1074) := by
  rw [Format.targetExponent, Format.minExponent, Format.mantissaBits]
  norm_num

theorem targetExponent_eq (m : ℕ) (e : ℤ) :
    Format.binary64.targetExponent (totalExponent m e) = max (m.log2 + 1 + e - 53) (-1074) :=
  targetExponent_binary64 _

theorem two_zpow_pos (e : ℤ) : (0 : ℚ) < 2 ^ e := zpow_pos two_pos e

theorem lt_of_two_zpow_lt {a b : ℤ} (h : (2 : ℚ) ^ a < 2 ^ b) : a < b :=
  (zpow_lt_zpow_iff_right₀ one_lt_two).1 h

/-- A double is its own double. -/
theorem rounds_self (m : ℕ) (e : ℤ) : Rounds (m * 2 ^ e) m e := by
  have hpos := two_zpow_pos e
  exact ⟨by nlinarith, fun _ _ => by nlinarith, by nlinarith, .inr ⟨by nlinarith, by nlinarith⟩⟩

namespace Rounds

variable {v : ℚ} {m : ℕ} {e : ℤ}

/-- What belongs to a double is the nearest to it on its own grid. -/
theorem nearest (h : Rounds v m e) : Nearest (v / 2 ^ e) m := by
  have hpos := two_zpow_pos e
  refine ⟨(le_div_iff₀ hpos).2 h.low, (div_le_iff₀ hpos).2 h.high, h.tie.imp_right fun ht => ?_⟩
  exact ⟨(lt_div_iff₀ hpos).2 ht.1, (div_lt_iff₀ hpos).2 ht.2⟩

theorem lt_two_zpow (h : Rounds v m e) (hm : IsDouble m e) : v < 2 ^ (53 + e) := by
  have hlt : (m : ℚ) + 1 ≤ 2 ^ 53 := by exact_mod_cast hm.lt
  have hpos := two_zpow_pos e
  rw [zpow_add₀ two_ne_zero]
  calc v ≤ (m + 1 / 2) * 2 ^ e := h.high
    _ < 2 ^ (53 : ℤ) * 2 ^ e := by
      refine mul_lt_mul_of_pos_right ?_ hpos
      norm_num at hlt ⊢
      linarith

theorem two_zpow_lt (h : Rounds v m e) (hm : IsDouble m e) : 2 ^ (-1076 : ℤ) < v := by
  have hone : (1 : ℚ) ≤ m := by exact_mod_cast hm.pos
  calc (2 : ℚ) ^ (-1076 : ℤ) < 2 ^ (-1 + -1074 : ℤ) := zpow_lt_zpow_right₀ one_lt_two (by norm_num)
    _ = 1 / 2 * 2 ^ (-1074 : ℤ) := by rw [zpow_add₀ two_ne_zero, zpow_neg_one, one_div]
    _ ≤ (m - 1 / 2) * 2 ^ e :=
      mul_le_mul (by linarith) (zpow_le_zpow_right₀ one_le_two hm.least) (two_zpow_pos _).le
        (by linarith)
    _ ≤ v := h.low

/-- **On which grid a number is rounded**: on that of its double, or on the next finer one, where it
is rounded up to the next power of two. -/
theorem grid (h : Rounds v m e) (hm : IsDouble m e) {T : ℤ} (hlt : v < 2 ^ T)
    (hle : -1074 < T - 53 → 2 ^ (T - 1) ≤ v) :
    max (T - 53) (-1074) = e ∨
      max (T - 53) (-1074) = e - 1 ∧ m = 2 ^ 52 ∧ Nearest (v / 2 ^ (e - 1)) (2 ^ 53) := by
  have hbelow : max (T - 53) (-1074) ≤ e := by
    refine max_le ?_ hm.least
    rcases le_or_gt (T - 53) (-1074) with hsmall | hlarge
    · exact hsmall.trans hm.least
    · have := lt_of_two_zpow_lt ((hle hlarge).trans_lt (h.lt_two_zpow hm))
      omega
  rcases hm.full with hfull | hleast
  swap
  · exact .inl (le_antisymm hbelow (hleast ▸ le_max_right _ _))
  by_cases hnormal : (2 : ℚ) ^ (52 + e) ≤ v
  · have := lt_of_two_zpow_lt (hnormal.trans_lt hlt)
    exact .inl (le_antisymm hbelow (le_max_of_le_left (by omega)))
  by_cases hleast : e = -1074
  · exact .inl (le_antisymm hbelow (hleast ▸ le_max_right _ _))
  -- below the power of two that the mantissa is
  have hpos := two_zpow_pos e
  rw [not_le, zpow_add₀ two_ne_zero, zpow_ofNat] at hnormal
  have hpower : m = 2 ^ 52 := by
    refine le_antisymm (Nat.le_of_lt_succ ?_) hfull
    have hlt := lt_of_mul_lt_mul_right (h.low.trans_lt hnormal) hpos.le
    exact_mod_cast (by linarith : (m : ℚ) < 2 ^ 52 + 1)
  have hnarrow := h.narrow hpower (lt_of_le_of_ne hm.least (Ne.symm hleast))
  rw [hpower, Nat.cast_pow, Nat.cast_ofNat] at hnarrow
  refine .inr ⟨?_, hpower, ?_⟩
  · refine le_antisymm (max_le ?_ (by have := hm.least; omega)) (le_max_of_le_left ?_)
    · rcases le_or_gt (T - 53) (-1074) with hsmall | hlarge
      · have := hm.least
        omega
      · have hpow : (2 : ℚ) ^ (T - 1) < 2 ^ (52 + e) := by
          rw [zpow_add₀ two_ne_zero, zpow_ofNat]
          exact (hle hlarge).trans_lt hnormal
        have := lt_of_two_zpow_lt hpow
        omega
    · have hpow : (2 : ℚ) ^ (51 + e) < 2 ^ T := by
        refine lt_of_le_of_lt ?_ hlt
        rw [zpow_add₀ two_ne_zero, zpow_ofNat]
        exact (mul_le_mul_of_nonneg_right (by norm_num) hpos.le).trans hnarrow
      have := lt_of_two_zpow_lt hpow
      omega
  · have hhalf : v / 2 ^ (e - 1) = 2 * v / 2 ^ e := by
      rw [zpow_sub_one₀ two_ne_zero]
      field_simp
    rw [hhalf]
    refine ⟨?_, ?_, .inl (by norm_num)⟩
    · rw [le_div_iff₀ hpos]
      push_cast
      linarith
    · refine ((div_lt_iff₀ hpos).2 ?_).le
      push_cast
      linarith

end Rounds

/-! ## Rounding -/

theorem mantissa_ofAccuracy (n : ℕ) (acc : Accuracy) :
    (ExtendedMantissa.ofMantissaAndAccuracy n acc).mantissa = n := by
  rcases acc with _ | _ | _ | _ <;> rfl

/-- Shifting to the target exponent divides the number and does not change where it is. -/
theorem shiftToTargetExponent_cuts {n : ℕ} {f t : ℤ} {acc : Accuracy} {v : ℚ}
    (hcuts : Cuts (.ofMantissaAndAccuracy n acc) (v / 2 ^ f))
    (ht : Format.binary64.targetExponent (totalExponent n f) = t) (hf : f ≤ t) :
    ∃ em, shiftToTargetExponent Format.binary64 n f acc = (em, t) ∧ Cuts em (v / 2 ^ t) := by
  have hshift : f + ((t - f).toNat : ℤ) = t := by omega
  have hexact : v / 2 ^ f / 2 ^ (t - f).toNat = v / 2 ^ t := by
    rw [div_div, ← zpow_natCast, ← zpow_add₀ two_ne_zero, hshift]
  refine ⟨_, ?_, hexact ▸ hcuts.shiftRight (t - f).toNat⟩
  rw [shiftToTargetExponent, shiftToExponent, ht, hshift]

/-- A mantissa that is rounded already is not shifted. -/
theorem shiftToTargetExponent_self {n : ℕ} {f t : ℤ}
    (ht : Format.binary64.targetExponent (totalExponent n f) = t) (k : ℕ) (hk : f + k = t) :
    shiftToTargetExponent Format.binary64 n f .exact =
      (ExtendedMantissa.ofMantissaAndAccuracy n .exact >>> k, t) := by
  have hshift : (t - f).toNat = k := by omega
  rw [shiftToTargetExponent, shiftToExponent, ht, hshift, hk]

theorem IsDouble.targetExponent {m : ℕ} {e : ℤ} (h : IsDouble m e) :
    Format.binary64.targetExponent (totalExponent m e) = e := by
  have hlog : m.log2 < 53 := (Nat.log2_lt h.pos.ne').2 h.lt
  have hleast := h.least
  rw [targetExponent_eq]
  rcases h.full with hfull | rfl
  · have : 52 ≤ m.log2 := (Nat.le_log2 h.pos.ne').2 hfull
    omega
  · omega

/-- **What is rounded becomes the double to which it belongs.** -/
theorem roundWithAccuracy_of_rounds (sign : Sign) {n : ℕ} {f : ℤ} {acc : Accuracy} {v : ℚ} {m : ℕ}
    {e : ℤ} (hcuts : Cuts (.ofMantissaAndAccuracy n acc) (v / 2 ^ f))
    (hf : f ≤ Format.binary64.targetExponent (totalExponent n f)) (hm : IsDouble m e)
    (h : Rounds v m e) :
    roundWithAccuracy Format.binary64 sign n f acc = .finite sign m e hm.pos := by
  have hfpos := two_zpow_pos f
  have hlow := hcuts.floor_le
  have hhigh := hcuts.lt_floor
  rw [mantissa_ofAccuracy] at hlow hhigh
  have hlt : v < 2 ^ ((n.log2 : ℤ) + 1 + f) := by
    have hn : (n : ℚ) + 1 ≤ 2 ^ (n.log2 + 1) := by exact_mod_cast Nat.lt_log2_self
    rw [zpow_add₀ two_ne_zero, ← Nat.cast_succ, zpow_natCast]
    exact (div_lt_iff₀ hfpos).1 (hhigh.trans_le hn)
  rw [targetExponent_eq] at hf
  have hle : -1074 < (n.log2 : ℤ) + 1 + f - 53 → 2 ^ ((n.log2 : ℤ) + 1 + f - 1) ≤ v := by
    intro hlarge
    have hpos : n ≠ 0 := by
      rintro rfl
      rw [Nat.log2_zero] at hf hlarge
      omega
    have hn : (2 : ℚ) ^ n.log2 ≤ n := by exact_mod_cast Nat.log2_self_le hpos
    have hexponent : (n.log2 : ℤ) + 1 + f - 1 = n.log2 + f := by omega
    rw [hexponent, zpow_add₀ two_ne_zero, zpow_natCast]
    exact (le_div_iff₀ hfpos).1 (hn.trans hlow)
  obtain ⟨em, hfirst, hem⟩ := shiftToTargetExponent_cuts hcuts (targetExponent_eq n f) hf
  rw [roundWithAccuracy, hfirst]
  dsimp only
  rcases h.grid hm hlt hle with hgrid | ⟨hgrid, hpower, hnearest⟩
  · rw [hgrid] at hem ⊢
    rw [hem.roundedMantissa h.nearest,
      shiftToTargetExponent_self hm.targetExponent 0 (add_zero e)]
    exact dif_neg hm.pos.ne'
  · rw [hgrid] at hem ⊢
    have htarget : Format.binary64.targetExponent (totalExponent (2 ^ 53) (e - 1)) = e := by
      have := hm.least
      rw [targetExponent_eq, Nat.log2_two_pow]
      omega
    rw [hem.roundedMantissa hnearest, shiftToTargetExponent_self htarget 1 (by omega)]
    subst hpower
    rfl

/-! ## Operations -/

section Operations

variable {m₁ m₂ m : ℕ} {e₁ e₂ e : ℤ} (h₁ : 0 < m₁) (h₂ : 0 < m₂)

/-- **A product is rounded**, if it has enough bits. -/
theorem mul_of_rounds (hlog : 52 ≤ (m₁ * m₂).log2) (hm : IsDouble m e)
    (h : Rounds (m₁ * m₂ * 2 ^ (e₁ + e₂)) m e) :
    UnpackedFloat.mul Format.binary64 (.finite .positive m₁ e₁ h₁) (.finite .positive m₂ e₂ h₂) =
      .finite .positive m e hm.pos := by
  refine roundWithAccuracy_of_rounds _ ?_ ?_ hm h
  · rw [mul_div_cancel_right₀ _ (two_zpow_pos _).ne', ← Nat.cast_mul]
    exact .exact _
  · rw [targetExponent_eq]
    exact le_max_of_le_left (by omega)

include h₁ h₂ in
/-- The quotient of mantissas has enough bits for the exponent with which it is written. -/
theorem le_targetExponent_quotient {t : ℤ} (ht : t ≤ e₁ - e₂)
    (htarget : t ≤ Format.binary64.targetExponent (totalExponent m₁ e₁ - totalExponent m₂ e₂)) :
    t ≤ Format.binary64.targetExponent
      (totalExponent ((m₁ <<< (e₁ - e₂ - t).toNat) / m₂) t) := by
  rw [targetExponent_binary64, totalExponent, totalExponent] at htarget
  rw [targetExponent_eq]
  rcases le_or_gt t (-1074) with hleast | hlarge
  · exact le_max_of_le_right hleast
  · have hbits : 2 ^ 52 ≤ (m₁ <<< (e₁ - e₂ - t).toNat) / m₂ := by
      rw [Nat.le_div_iff_mul_le h₂, Nat.shiftLeft_eq]
      calc 2 ^ 52 * m₂ ≤ 2 ^ 52 * 2 ^ (m₂.log2 + 1) :=
            Nat.mul_le_mul_left _ Nat.lt_log2_self.le
        _ = 2 ^ (52 + (m₂.log2 + 1)) := (Nat.pow_add ..).symm
        _ ≤ 2 ^ (m₁.log2 + (e₁ - e₂ - t).toNat) := Nat.pow_le_pow_right two_pos (by omega)
        _ = 2 ^ m₁.log2 * 2 ^ (e₁ - e₂ - t).toNat := Nat.pow_add ..
        _ ≤ m₁ * 2 ^ (e₁ - e₂ - t).toNat :=
            Nat.mul_le_mul_right _ (Nat.log2_self_le h₁.ne')
    have := (Nat.le_log2 (Nat.pos_of_ne_zero (by omega)).ne').2 hbits
    exact le_max_of_le_left (by omega)

/-- **A quotient is rounded.** -/
theorem div_of_rounds (hm : IsDouble m e) (h : Rounds (m₁ / m₂ * 2 ^ (e₁ - e₂)) m e) :
    UnpackedFloat.div Format.binary64 (.finite .positive m₁ e₁ h₁) (.finite .positive m₂ e₂ h₂) =
      .finite .positive m e hm.pos := by
  rw [UnpackedFloat.div, divCore]
  dsimp only
  generalize ht : min (e₁ - e₂)
    (Format.binary64.targetExponent (totalExponent m₁ e₁ - totalExponent m₂ e₂)) = t
  have hle : t ≤ e₁ - e₂ := ht ▸ min_le_left _ _
  have htarget := le_targetExponent_quotient h₁ h₂ hle (ht ▸ min_le_right _ _)
  generalize hn : m₁ <<< (e₁ - e₂ - t).toNat = n at htarget ⊢
  refine roundWithAccuracy_of_rounds _ ?_ htarget hm h
  have hquotient : (m₁ / m₂ * 2 ^ (e₁ - e₂) / 2 ^ t : ℚ) = (n / m₂ : ℕ) + (n % m₂ : ℕ) / m₂ := by
    have hm₂ : (m₂ : ℚ) ≠ 0 := by exact_mod_cast h₂.ne'
    have hparts : ((n % m₂ : ℕ) : ℚ) + m₂ * (n / m₂ : ℕ) = n := by exact_mod_cast Nat.mod_add_div n m₂
    have hshift : (2 : ℚ) ^ (e₁ - e₂) / 2 ^ t = 2 ^ (e₁ - e₂ - t).toNat := by
      rw [← zpow_sub₀ two_ne_zero, ← zpow_natCast, Int.toNat_of_nonneg (by omega)]
    have hn' : (m₁ : ℚ) * 2 ^ (e₁ - e₂ - t).toNat = n := by
      rw [← hn, Nat.shiftLeft_eq]
      push_cast
      rfl
    rw [mul_div_assoc, hshift, div_mul_eq_mul_div, hn', ← hparts]
    field_simp
    ring
  rw [hquotient]
  exact .fraction _ _ _ (Nat.mod_lt _ h₂)

end Operations

/-! ## Decimals -/

variable {n m : ℕ} {e k : ℤ}

theorem ten_zpow_eq (k : ℤ) : (10 : ℚ) ^ k = 2 ^ (3 * k) * (5 / 4) ^ k := by
  rw [zpow_mul, ← mul_zpow]
  norm_num

theorem two_zpow_le_ten_zpow (hk : 0 ≤ k) : (2 : ℚ) ^ (3 * k) ≤ 10 ^ k := by
  rw [ten_zpow_eq]
  exact le_mul_of_one_le_right (two_zpow_pos _).le (one_le_zpow₀ (by norm_num) hk)

theorem ten_zpow_le_two_zpow (hk : k ≤ 0) : (10 : ℚ) ^ k ≤ 2 ^ (3 * k) := by
  rw [ten_zpow_eq]
  exact mul_le_of_le_one_right (two_zpow_pos _).le (zpow_le_one_of_nonpos₀ (by norm_num) hk)

/-- A decimal that belongs to a double is neither too large nor too small to be tried. -/
theorem Rounds.decimal_bounds (hn : n ≠ 0) (hm : IsDouble m e) (h : Rounds (n * 10 ^ k) m e) :
    k ≤ 2 ^ 11 ∧ -(2 ^ 11 + n.log2 : ℤ) ≤ k := by
  have hpos : (0 : ℚ) < 10 ^ k := zpow_pos (by norm_num) k
  have hone : (1 : ℚ) ≤ n := by exact_mod_cast Nat.one_le_iff_ne_zero.2 hn
  refine ⟨?_, ?_⟩ <;> by_contra! hk
  · have hpow : (2 : ℚ) ^ (3 * k) < 2 ^ (53 + e) :=
      calc (2 : ℚ) ^ (3 * k) ≤ 10 ^ k := two_zpow_le_ten_zpow (by omega)
        _ ≤ n * 10 ^ k := le_mul_of_one_le_left hpos.le hone
        _ < 2 ^ (53 + e) := h.lt_two_zpow hm
    have := lt_of_two_zpow_lt hpow
    have := hm.most
    omega
  · have hlog : (n : ℚ) ≤ 2 ^ ((n.log2 : ℤ) + 1) := by exact_mod_cast Nat.lt_log2_self.le
    have hpow : (2 : ℚ) ^ (-1076 : ℤ) < 2 ^ ((n.log2 : ℤ) + 1 + 3 * k) :=
      calc (2 : ℚ) ^ (-1076 : ℤ) < n * 10 ^ k := h.two_zpow_lt hm
        _ ≤ 2 ^ ((n.log2 : ℤ) + 1) * 2 ^ (3 * k) :=
          mul_le_mul hlog (ten_zpow_le_two_zpow (by omega)) hpos.le (two_zpow_pos _).le
        _ = 2 ^ ((n.log2 : ℤ) + 1 + 3 * k) := (zpow_add₀ two_ne_zero _ _).symm
    have := lt_of_two_zpow_lt hpow
    omega

/-- **A decimal is read as the double to which it belongs.** -/
theorem ofScientific_of_rounds (hn : n ≠ 0) (hm : IsDouble m e) (h : Rounds (n * 10 ^ k) m e) :
    UnpackedFloat.ofScientific Format.binary64 n k = .finite .positive m e hm.pos := by
  obtain ⟨hhigh, hlow⟩ := h.decimal_bounds hn hm
  rw [UnpackedFloat.ofScientific, dif_neg hn, if_neg (by simpa using hhigh),
    if_neg (by simpa using hlow)]
  split
  · next hk =>
    have hbits : Format.binary64.mantissaBits = 53 := rfl
    have hvalue : ((n : ℚ) * 10 ^ k) =
        (n <<< Format.binary64.mantissaBits : ℕ) * (10 ^ k.toNat : ℕ) *
          2 ^ (-(Format.binary64.mantissaBits : ℤ) + 0) := by
      have hpow : (10 : ℚ) ^ k = 10 ^ k.toNat := by
        rw [← zpow_natCast, Int.toNat_of_nonneg hk]
      rw [hbits, Nat.shiftLeft_eq, hpow, add_zero, zpow_neg]
      push_cast
      field_simp
    refine mul_of_rounds _ _ ?_ hm (hvalue ▸ h)
    rw [Nat.le_log2 (Nat.mul_pos (by rw [hbits, Nat.shiftLeft_eq]; positivity) (by positivity)).ne',
      hbits, Nat.shiftLeft_eq]
    calc 2 ^ 52 ≤ 1 * 2 ^ 53 * 1 := by norm_num
      _ ≤ n * 2 ^ 53 * 10 ^ k.toNat :=
        Nat.mul_le_mul (Nat.mul_le_mul_right _ (Nat.pos_of_ne_zero hn)) (Nat.pos_of_ne_zero (by positivity))
  · next hk =>
    have hvalue : ((n : ℚ) * 10 ^ k) = n / (10 ^ (-k).toNat : ℕ) * 2 ^ (0 - 0 : ℤ) := by
      have hpow : (10 : ℚ) ^ (-k) = 10 ^ (-k).toNat := by
        rw [← zpow_natCast, Int.toNat_of_nonneg (by omega)]
      rw [sub_zero, zpow_zero, mul_one, Nat.cast_pow, Nat.cast_ofNat, ← hpow, zpow_neg, div_inv_eq_mul]
    exact div_of_rounds _ _ hm (hvalue ▸ h)

end Number
end VisualBlocks

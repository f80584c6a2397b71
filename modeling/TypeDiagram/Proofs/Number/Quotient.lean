import Mathlib.Tactic.FieldSimp
import Mathlib.Tactic.Positivity
import Mathlib.Tactic.Ring
import TypeDiagram.Number.Amount
import TypeDiagram.Proofs.Number.Binary64

/-! # Quotients are rounded to the nearest number

Products and quotients are rounded once, from their exact values: what comes out is the nearest of
all numbers, halfway the even one. So a decimal is read as the number nearest to it, and which
number this is hangs on nothing but the value of the decimal. The number nearest to a whole number
is infinite exactly if the whole number is too large to be read.
-/

namespace TypeDiagram.Number

open Float.Model UnpackedFloat

/-! ## Fractions -/

def roundedFraction (n d : Nat) : Nat := nearest n (d * 2 ^ lost (n / d)) * 2 ^ lost (n / d)

theorem roundedFraction_mul (n : Nat) {d c : Nat} (hd : 0 < d) (hc : 0 < c) :
    roundedFraction (n * c) (d * c) = roundedFraction n d := by
  unfold roundedFraction
  rw [Nat.mul_div_mul_right n d hc, Nat.mul_right_comm,
    nearest_mul n (Nat.mul_pos hd (Nat.two_pow_pos _)) hc]

theorem shiftRight_fraction (q : Nat) {r d : Nat} (hr : r < d) (k : Nat) :
    ExtendedMantissa.ofMantissaAndAccuracy q (accuracyOfFraction r d) >>> k =
      .ofMantissaAndAccuracy (q / 2 ^ k) (accuracyOfFraction ((d * q + r) % (d * 2 ^ k))
        (d * 2 ^ k)) := by
  have hd : 0 < d := Nat.zero_lt_of_lt hr
  have hQuotient : (d * q + r) / d = q := by
    rw [Nat.mul_add_div hd, Nat.div_eq_of_lt hr, Nat.add_zero]
  have hRest : (d * q + r) % d = r := by rw [Nat.mul_add_mod, Nat.mod_eq_of_lt hr]
  change Nat.repeat ExtendedMantissa.shiftRightOne k _ = _
  induction k with
  | zero => rw [Nat.pow_zero, Nat.mul_one, hRest, Nat.div_one, Nat.repeat]
  | succ k ih =>
    have hHalf : q / 2 ^ (k + 1) = q / 2 ^ k / 2 := by rw [Nat.pow_succ, Nat.div_div_eq_div_mul]
    have hMore : (d * q + r) % (d * 2 ^ (k + 1)) =
        (d * q + r) % (d * 2 ^ k) + d * 2 ^ k * (q / 2 ^ k % 2) := by
      rw [Nat.pow_succ, ← Nat.mul_assoc, Nat.mod_mul, ← Nat.div_div_eq_div_mul, hQuotient]
    rw [Nat.repeat, ih, hHalf, hMore, Nat.pow_succ, ← Nat.mul_assoc]
    exact shiftRightOne_fraction _ (Nat.mod_lt _ (Nat.mul_pos hd (Nat.two_pow_pos k)))

theorem roundedMantissa_shiftRight_fraction (q : Nat) {r d : Nat} (hr : r < d) (k : Nat) :
    (ExtendedMantissa.ofMantissaAndAccuracy q (accuracyOfFraction r d) >>> k).roundedMantissa =
      nearest (d * q + r) (d * 2 ^ k) := by
  have hd : 0 < d := Nat.zero_lt_of_lt hr
  have hQuotient : (d * q + r) / (d * 2 ^ k) = q / 2 ^ k := by
    rw [← Nat.div_div_eq_div_mul, Nat.mul_add_div hd, Nat.div_eq_of_lt hr, Nat.add_zero]
  rw [shiftRight_fraction q hr, ExtendedMantissa.roundedMantissa, nearest, hQuotient]
  generalize accuracyOfFraction _ _ = accuracy
  cases accuracy with
  | exact => rfl
  | inexact o => cases o <;> rfl

theorem lost_eq {n k : Nat} (hLow : 2 ^ 52 * 2 ^ k ≤ n ∨ k = 0) (hHigh : n < 2 ^ 53 * 2 ^ k) :
    lost n = k := by
  unfold lost
  rw [← Nat.pow_add] at hHigh
  rcases hLow with hLow | rfl
  · rw [← Nat.pow_add] at hLow
    have hn : n ≠ 0 := (Nat.two_pow_pos _).trans_le hLow |>.ne'
    have hLess : n.log2 < 53 + k := (Nat.log2_lt hn).mpr hHigh
    have hLe : 52 + k ≤ n.log2 := (Nat.le_log2 hn).mpr hLow
    omega
  · rcases Nat.eq_zero_or_pos n with rfl | hn
    · simp
    · have hLess : n.log2 < 53 := (Nat.log2_lt hn.ne').mpr hHigh
      omega

/-- The shift to 53 digits of the quotient loses what `lost` counts of the fraction. -/
theorem lost_fraction {q r d : Nat} (hr : r < d) {e : Int} (he : -1074 ≤ e)
    (hTarget : e ≤ target q e) :
    lost ((d * q + r) * 2 ^ (e + 1074).toNat / d) = (target q e - e).toNat + (e + 1074).toNat := by
  have hd : 0 < d := Nat.zero_lt_of_lt hr
  have hLow : q * 2 ^ (e + 1074).toNat ≤ (d * q + r) * 2 ^ (e + 1074).toNat / d := by
    rw [Nat.le_div_iff_mul_le hd, Nat.mul_right_comm, Nat.mul_comm q]
    exact Nat.mul_le_mul_right _ (Nat.le_add_right _ _)
  have hHigh : (d * q + r) * 2 ^ (e + 1074).toNat / d < (q + 1) * 2 ^ (e + 1074).toNat := by
    rw [Nat.div_lt_iff_lt_mul hd, Nat.mul_right_comm, Nat.add_one_mul, Nat.mul_comm q]
    exact Nat.mul_lt_mul_of_pos_right (Nat.add_lt_add_left hr _) (Nat.two_pow_pos _)
  have hLog : q + 1 ≤ 2 ^ (q.log2 + 1) := Nat.lt_log2_self
  unfold target at hTarget ⊢
  apply lost_eq
  · rcases Nat.lt_or_ge q.log2 52 with hShort | hFull
    · exact .inr (by omega)
    · left
      have hq : q ≠ 0 := by
        rintro rfl
        simp at hFull
      refine le_trans ?_ hLow
      have hPower : 2 ^ q.log2 ≤ q := Nat.log2_self_le hq
      calc 2 ^ 52 * 2 ^ ((max (q.log2 + 1 + e - 53) (-1074) - e).toNat + (e + 1074).toNat)
          ≤ 2 ^ q.log2 * 2 ^ (e + 1074).toNat := by
            rw [← Nat.pow_add, ← Nat.pow_add]
            exact Nat.pow_le_pow_right (by decide) (by omega)
        _ ≤ q * 2 ^ (e + 1074).toNat := Nat.mul_le_mul_right _ hPower
  · calc (d * q + r) * 2 ^ (e + 1074).toNat / d
        < (q + 1) * 2 ^ (e + 1074).toNat := hHigh
      _ ≤ 2 ^ (q.log2 + 1) * 2 ^ (e + 1074).toNat := Nat.mul_le_mul_right _ hLog
      _ ≤ 2 ^ 53 * 2 ^ ((max (q.log2 + 1 + e - 53) (-1074) - e).toNat + (e + 1074).toNat) := by
          rw [← Nat.pow_add, ← Nat.pow_add]
          exact Nat.pow_le_pow_right (by decide) (by omega)

/-! ## Rounding -/

section Nearest

variable (n : Nat) {d : Nat} (hd : 0 < d)

include hd

theorem nearest_fraction_le : nearest n (d * 2 ^ lost (n / d)) ≤ 2 ^ 53 := by
  have hBound := (nearest_bounds n (Nat.mul_pos hd (Nat.two_pow_pos (lost (n / d))))).2
  have hLess := Nat.div_lt_of_lt_mul ((lt_of_lost (n / d)).trans_eq (Nat.mul_comm _ _))
  rw [Nat.div_div_eq_div_mul] at hLess
  omega

theorem le_nearest_fraction (h : 0 < lost (n / d)) :
    2 ^ 52 ≤ nearest n (d * 2 ^ lost (n / d)) := by
  refine le_trans ?_ (nearest_bounds n (Nat.mul_pos hd (Nat.two_pow_pos (lost (n / d))))).1
  rw [← Nat.div_div_eq_div_mul]
  exact (Nat.le_div_iff_mul_le (Nat.two_pow_pos _)).mpr (le_of_lost h)

end Nearest

theorem packedValue?_carry (s : Sign) {m : Nat} (hLe : m ≤ 2 ^ 53) {e : Int} (he : -1074 ≤ e)
    (hFull : 2 ^ 52 ≤ m ∨ e = -1074) :
    let shifted := shiftToTargetExponent .binary64 m e .exact
    packedValue? (if h : shifted.1.mantissa = 0 then .zero s
      else .finite s shifted.1.mantissa shifted.2 (Nat.pos_of_ne_zero h)) =
        some (s.apply (limited (units m e))) := by
  dsimp only
  rcases Nat.eq_zero_or_pos m with rfl | hm
  · have hZero : (shiftToTargetExponent .binary64 0 e .exact).1.mantissa = 0 := by
      rw [shiftToTargetExponent_eq]
      exact (mantissa_shiftRight 0 _).trans (Nat.zero_div _)
    rw [dif_pos hZero, packedValue?_zero, units, Nat.zero_mul, limited, if_pos overflow_pos]
    cases s <;> rfl
  · obtain ⟨hPositive, hFits, hUnits⟩ := carry_eq hm hLe he hFull
    rw [dif_neg hPositive.ne', packedValue?_finite s hFits, hUnits]

theorem packedValue?_roundWithAccuracy (s : Sign) {q r d : Nat} (hr : r < d) {e : Int}
    (he : -1074 ≤ e) (hTarget : e ≤ target q e) :
    packedValue? (roundWithAccuracy .binary64 s q e (accuracyOfFraction r d)) =
      some (s.apply (limited (roundedFraction ((d * q + r) * 2 ^ (e + 1074).toNat) d))) := by
  have hd : 0 < d := Nat.zero_lt_of_lt hr
  have hLost := lost_fraction hr he hTarget
  have hMantissa := roundedMantissa_shiftRight_fraction q hr (target q e - e).toNat
  rw [← nearest_mul _ (Nat.mul_pos hd (Nat.two_pow_pos _)) (Nat.two_pow_pos (e + 1074).toNat),
    Nat.mul_assoc d, ← Nat.pow_add, ← hLost] at hMantissa
  generalize (d * q + r) * 2 ^ (e + 1074).toNat = n at hLost hMantissa ⊢
  have hExponent : e + ((target q e - e).toNat : Int) = (lost (n / d) : Int) - 1074 := by omega
  have hFull : 2 ^ 52 ≤ nearest n (d * 2 ^ lost (n / d)) ∨ (lost (n / d) : Int) - 1074 = -1074 := by
    rcases Nat.eq_zero_or_pos (lost (n / d)) with hNone | hSome
    · exact .inr (by rw [hNone]; rfl)
    · exact .inl (le_nearest_fraction n hd hSome)
  have hCarry := packedValue?_carry s (nearest_fraction_le n hd) (by omega) hFull
  have hUnits : units (nearest n (d * 2 ^ lost (n / d))) ((lost (n / d) : Int) - 1074) =
      roundedFraction n d := by
    rw [units, roundedFraction, sub_add_cancel, Int.toNat_natCast]
  rw [hUnits, ← hMantissa, ← hExponent] at hCarry
  exact hCarry

@[irreducible]
def unity : Nat := units 1 0

theorem unity_pos : 0 < unity := by
  unfold unity
  exact units_pos Nat.one_pos 0

theorem natCast_units {e : Int} (he : -1074 ≤ e) (m : Nat) :
    ((units m e : Nat) : Rat) = m * 2 ^ e * unity := by
  have hPower : (2 : Rat) ^ (e + 1074).toNat = 2 ^ e * 2 ^ ((0 : Int) + 1074).toNat := by
    rw [← zpow_natCast, ← zpow_natCast, ← zpow_add₀ two_ne_zero]
    congr 1
    omega
  unfold unity
  rw [units, units, Nat.one_mul, Nat.cast_mul, Nat.cast_pow, Nat.cast_pow, Nat.cast_ofNat, hPower,
    mul_assoc]

/-- The count of the number nearest to a value that is not below zero. -/
def nearestCount (v : Rat) : Nat :=
  limited (roundedFraction (v * unity).num.toNat (v * unity).den)

theorem nearestCount_eq {v : Rat} {n d : Nat} (hd : 0 < d) (h : v * unity = n / d) :
    nearestCount v = limited (roundedFraction n d) := by
  have hNonneg : 0 ≤ v * unity := by
    rw [h]
    positivity
  unfold nearestCount
  generalize v * unity = y at *
  have hNum : (y.num.toNat : Rat) = y.num := by
    exact_mod_cast Int.toNat_of_nonneg (Rat.num_nonneg.mpr hNonneg)
  have hDen : (y.den : Rat) ≠ 0 := Nat.cast_ne_zero.mpr y.den_pos.ne'
  have hd' : (d : Rat) ≠ 0 := Nat.cast_ne_zero.mpr hd.ne'
  have hCross : y.num.toNat * d = n * y.den := by
    have hRat : (y.num.toNat : Rat) * d = n * y.den := by
      rw [hNum]
      rw [← div_eq_div_iff hDen hd', Rat.num_div_den, h]
    exact_mod_cast hRat
  rw [← roundedFraction_mul _ y.den_pos hd, hCross, Nat.mul_comm y.den d,
    roundedFraction_mul _ hd y.den_pos]

/-! ## Products and quotients -/

section Finite

variable {m₁ m₂ : Nat} {e₁ e₂ : Int} {h₁ : 0 < m₁} {h₂ : 0 < m₂}

theorem packedValue?_mul (hFull : 2 ^ 52 ≤ m₁ * m₂) (he : -1074 ≤ e₁ + e₂) :
    packedValue? (UnpackedFloat.mul .binary64 (.finite .positive m₁ e₁ h₁)
      (.finite .positive m₂ e₂ h₂)) = some
        ((nearestCount (m₁ * 2 ^ e₁ * (m₂ * 2 ^ e₂)) : Nat) : Int) := by
  have hLog : 52 ≤ (m₁ * m₂).log2 := (Nat.le_log2 (Nat.mul_pos h₁ h₂).ne').mpr hFull
  have hTarget : e₁ + e₂ ≤ target (m₁ * m₂) (e₁ + e₂) := by
    unfold target
    omega
  have hRound := packedValue?_roundWithAccuracy .positive Nat.one_pos he hTarget (r := 0)
  have hValue : (m₁ : Rat) * 2 ^ e₁ * (m₂ * 2 ^ e₂) * unity =
      (units (m₁ * m₂) (e₁ + e₂) : Nat) / (1 : Nat) := by
    rw [natCast_units he, zpow_add₀ two_ne_zero]
    push_cast
    ring
  rw [nearestCount_eq Nat.one_pos hValue, units]
  rw [Nat.one_mul, Nat.add_zero] at hRound
  exact hRound

def quotientExponent (m₁ : Nat) (e₁ : Int) (m₂ : Nat) (e₂ : Int) : Int :=
  min (e₁ - e₂) (max (m₁.log2 + 1 + e₁ - (m₂.log2 + 1 + e₂) - 53) (-1074))

theorem div_finite : UnpackedFloat.div .binary64 (.finite .positive m₁ e₁ h₁)
    (.finite .positive m₂ e₂ h₂) =
      let e := quotientExponent m₁ e₁ m₂ e₂
      let m := m₁ * 2 ^ (e₁ - e₂ - e).toNat
      roundWithAccuracy .binary64 .positive (m / m₂) e (accuracyOfFraction (m % m₂) m₂) := by
  dsimp only
  rw [← Nat.shiftLeft_eq]
  rfl

theorem quotientExponent_le_target (hm₁ : 0 < m₁) (hm₂ : 0 < m₂) : quotientExponent m₁ e₁ m₂ e₂ ≤
    target (m₁ * 2 ^ (e₁ - e₂ - quotientExponent m₁ e₁ m₂ e₂).toNat / m₂)
      (quotientExponent m₁ e₁ m₂ e₂) := by
  rcases le_or_gt (quotientExponent m₁ e₁ m₂ e₂) (-1074) with hLow | hHigh
  · exact hLow.trans (le_max_right _ _)
  · have hShift : 52 + (m₂.log2 + 1) ≤ m₁.log2 + (e₁ - e₂ - quotientExponent m₁ e₁ m₂ e₂).toNat := by
      unfold quotientExponent at hHigh ⊢
      omega
    generalize (e₁ - e₂ - quotientExponent m₁ e₁ m₂ e₂).toNat = k at hShift ⊢
    have hFull : 2 ^ 52 * m₂ ≤ m₁ * 2 ^ k := by
      calc 2 ^ 52 * m₂ ≤ 2 ^ 52 * 2 ^ (m₂.log2 + 1) := Nat.mul_le_mul_left _ Nat.lt_log2_self.le
        _ ≤ 2 ^ m₁.log2 * 2 ^ k := by
            rw [← Nat.pow_add, ← Nat.pow_add]
            exact Nat.pow_le_pow_right (by decide) hShift
        _ ≤ m₁ * 2 ^ k := Nat.mul_le_mul_right _ (Nat.log2_self_le hm₁.ne')
    have hQuotient : 2 ^ 52 ≤ m₁ * 2 ^ k / m₂ := (Nat.le_div_iff_mul_le hm₂).mpr hFull
    have hLog : 52 ≤ (m₁ * 2 ^ k / m₂).log2 :=
      (Nat.le_log2 ((Nat.two_pow_pos 52).trans_le hQuotient).ne').mpr hQuotient
    unfold target
    omega

theorem packedValue?_div (he : -1074 ≤ e₁ - e₂) :
    packedValue? (UnpackedFloat.div .binary64 (.finite .positive m₁ e₁ h₁)
      (.finite .positive m₂ e₂ h₂)) = some
        ((nearestCount (m₁ * 2 ^ e₁ / (m₂ * 2 ^ e₂)) : Nat) : Int) := by
  have hTarget : quotientExponent m₁ e₁ m₂ e₂ ≤ target _ _ := quotientExponent_le_target h₁ h₂
  have hLow : -1074 ≤ quotientExponent m₁ e₁ m₂ e₂ := le_min he (le_max_right _ _)
  have hLe : quotientExponent m₁ e₁ m₂ e₂ ≤ e₁ - e₂ := min_le_left _ _
  rw [div_finite]
  dsimp only
  generalize quotientExponent m₁ e₁ m₂ e₂ = e at *
  rw [packedValue?_roundWithAccuracy .positive (Nat.mod_lt _ h₂) hLow hTarget, Nat.div_add_mod]
  have hValue : (m₁ : Rat) * 2 ^ e₁ / (m₂ * 2 ^ e₂) * unity =
      (m₁ * 2 ^ (e₁ - e₂ - e).toNat * 2 ^ (e + 1074).toNat : Nat) / m₂ := by
    have hUnits : m₁ * 2 ^ (e₁ - e₂ - e).toNat * 2 ^ (e + 1074).toNat = units m₁ (e₁ - e₂) := by
      rw [units, Nat.mul_assoc, ← Nat.pow_add]
      congr 2
      omega
    rw [hUnits, natCast_units he, zpow_sub₀ two_ne_zero]
    field_simp
  rw [nearestCount_eq h₂ hValue]
  rfl

end Finite

/-! ## Decimals -/

/-- A number that counts as more than zero and less than infinity is unpacked as a finite one. -/
theorem exists_finite_of_count? {x : Float} {s : Sign} {n : Nat} (hn : 0 < n) (hLess : n < overflow)
    (h : count? x = some (s.apply n)) :
    ∃ m e hm, x.toModel.unpack = .finite s m e hm ∧ Fits m e ∧ units m e = n := by
  have hCanonical := canonical_float x
  have hInfinite : infinite = 2 * overflow := rfl
  unfold count? at h
  cases hUnpack : x.toModel.unpack with
  | notANumber =>
    rw [hUnpack] at h
    cases h
  | infinity t =>
    rw [hUnpack] at h
    have hSame := Option.some.inj h
    cases s <;> cases t <;> simp only [Sign.apply] at hSame <;> omega
  | zero t =>
    rw [hUnpack] at h
    have hSame : 0 = s.apply n := Option.some.inj h
    cases s <;> simp only [Sign.apply] at hSame <;> omega
  | finite t m e hm =>
    rw [hUnpack] at h hCanonical
    have hSame := Option.some.inj h
    have hUnits := units_pos hm e
    cases s <;> cases t <;> simp only [Sign.apply] at hSame
    · exact ⟨m, e, hm, rfl, hCanonical.1, by omega⟩
    · omega
    · omega
    · exact ⟨m, e, hm, rfl, hCanonical.1, by omega⟩

theorem units_whole (n : Nat) : units n 0 = n * unity := by
  unfold unity
  rw [units, units, Nat.one_mul]

theorem units_whole_lt_overflow {n : Nat} (h : n < 2 ^ 100) : units n 0 < overflow := by
  have hPower (k l : Nat) (hLe : 100 + k ≤ 53 + l) : n * 2 ^ k < 2 ^ 53 * 2 ^ l := by
    calc n * 2 ^ k < 2 ^ 100 * 2 ^ k := Nat.mul_lt_mul_of_pos_right h (Nat.two_pow_pos k)
      _ = 2 ^ (100 + k) := (Nat.pow_add ..).symm
      _ ≤ 2 ^ (53 + l) := Nat.pow_le_pow_right (by decide) hLe
      _ = 2 ^ 53 * 2 ^ l := Nat.pow_add ..
  unfold overflow units
  exact hPower _ _ (by omega)

theorem exists_finite_of_whole {x : Float} {n : Nat} (hn : 0 < n) (hLess : n < 2 ^ 100)
    (h : count? x = some (units n 0 : Int)) :
    ∃ m e hm, x.toModel.unpack = .finite .positive m e hm ∧ 2 ^ 52 ≤ m ∧ -53 < e ∧ e < 100 ∧
      (m : Rat) * 2 ^ e = n := by
  obtain ⟨m, e, hm, hUnpack, hFits, hUnits⟩ :=
    exists_finite_of_count? (s := .positive) (units_pos hn 0) (units_whole_lt_overflow hLess) h
  have hLow := hFits.low
  have hValue : (m : Rat) * 2 ^ e = n := by
    have hOne : (unity : Rat) ≠ 0 := Nat.cast_ne_zero.mpr unity_pos.ne'
    have hScaled := natCast_units hLow m
    rw [hUnits, units_whole, Nat.cast_mul] at hScaled
    exact (mul_right_cancel₀ hOne hScaled).symm
  have hAbove : -53 < e := by
    by_contra hBelow
    have hShort : (m : Rat) < 2 ^ (53 : Int) := by exact_mod_cast hFits.lt
    have hSmall : (m : Rat) * 2 ^ e < 1 := by
      calc (m : Rat) * 2 ^ e < 2 ^ (53 : Int) * 2 ^ e :=
            mul_lt_mul_of_pos_right hShort (zpow_pos two_pos e)
        _ = 2 ^ (53 + e) := (zpow_add₀ two_ne_zero _ _).symm
        _ ≤ 1 := zpow_le_one_of_nonpos₀ one_le_two (by omega)
    have hSome : (1 : Rat) ≤ n := by exact_mod_cast hn
    linarith
  have hBelow : e < 100 := by
    by_contra hAbove
    have hGreat : (2 : Rat) ^ (100 : Int) ≤ m * 2 ^ e := by
      calc (2 : Rat) ^ (100 : Int) ≤ 2 ^ e := zpow_le_zpow_right₀ one_le_two (by omega)
        _ ≤ m * 2 ^ e := le_mul_of_one_le_left (zpow_pos two_pos e).le (by exact_mod_cast hm)
    have hSmall : (n : Rat) < 2 ^ (100 : Int) := by exact_mod_cast hLess
    linarith
  exact ⟨m, e, hm, hUnpack, hFits.full.resolve_right (by omega), hAbove, hBelow, hValue⟩

theorem count?_natCast {m : Nat} (h : m < 2 ^ 53) :
    count? m.toUInt64.toFloat = some (units m 0 : Int) := by
  have hSize : m.toUInt64.toNat = m := by
    change m % 2 ^ 64 = m
    omega
  have hPacked := packedValue?_normalize m.toUInt64.toNat (e := 0) (by decide)
  have hRounded : nearestValue (units m 0 : Int) = units m 0 := by
    have hApply := nearestValue_apply .positive (units m 0)
    rw [rounded_units h, limited, if_pos (units_whole_lt_overflow (by omega))] at hApply
    exact hApply
  have hCount : (m.toUInt64.toNat : Int) * 2 ^ ((0 : Int) + 1074).toNat = units m 0 := by
    rw [hSize, units, Nat.cast_mul, Nat.cast_pow, Nat.cast_ofNat]
  rw [hCount, hRounded] at hPacked
  exact hPacked

theorem count?_powerOfTen : ∀ i : Fin 23, count? Float.exactlyRepresentablePowersOfTen[i] =
    some (units (10 ^ i.val) 0 : Int) := by
  decide +kernel

theorem powerOfTen_lt {k : Nat} (hk : k ≤ 22) : 10 ^ k < 2 ^ 100 :=
  (Nat.pow_le_pow_right (by decide) hk).trans_lt (by decide)

/-- A decimal with short digits and a low exponent is a product or a quotient of whole numbers. -/
theorem count?_ofScientific_short {m : Nat} (hm : 0 < m) (hShort : m < 2 ^ 53) {e : Int}
    (he : e.natAbs ≤ 22) : count? (Float.ofScientific m (e < 0) e.natAbs) =
      some ((nearestCount (m * 10 ^ e) : Nat) : Int) := by
  have hIndex := count?_powerOfTen ⟨e.natAbs, by omega⟩
  obtain ⟨m₁, e₁, h₁, hUnpack₁, hFull₁, hLow₁, hHigh₁, hValue₁⟩ :=
    exists_finite_of_whole hm (hShort.trans (by decide)) (count?_natCast hShort)
  obtain ⟨m₂, e₂, h₂, hUnpack₂, hFull₂, hLow₂, hHigh₂, hValue₂⟩ :=
    exists_finite_of_whole (Nat.pow_pos (by decide)) (powerOfTen_lt he) hIndex
  rw [Float.ofScientific, dif_pos ⟨hShort, he⟩]
  dsimp only
  split
  · rename_i hNegative
    have hNegative : e < 0 := of_decide_eq_true hNegative
    have hValue : (m : Rat) * 10 ^ e = m₁ * 2 ^ e₁ / (m₂ * 2 ^ e₂) := by
      rw [hValue₁, hValue₂, Nat.cast_pow, ← zpow_natCast, Int.ofNat_natAbs_of_nonpos hNegative.le,
        zpow_neg, div_inv_eq_mul, Nat.cast_ofNat]
    have he : -1074 ≤ e₁ - e₂ := by omega
    change packedValue? (UnpackedFloat.div _ m.toUInt64.toFloat.toModel.unpack _) = _
    rw [hUnpack₁, hValue]
    exact (congrArg _ (congrArg _ hUnpack₂)).trans (packedValue?_div he)
  · rename_i hNonneg
    have hNonneg : 0 ≤ e := by simpa using hNonneg
    have hValue : (m : Rat) * 10 ^ e = m₁ * 2 ^ e₁ * (m₂ * 2 ^ e₂) := by
      rw [hValue₁, hValue₂, Nat.cast_pow, ← zpow_natCast, Int.natAbs_of_nonneg hNonneg,
        Nat.cast_ofNat]
    have he : -1074 ≤ e₁ + e₂ := by omega
    have hFull : 2 ^ 52 ≤ m₁ * m₂ := hFull₁.trans (Nat.le_mul_of_pos_right _ h₂)
    change packedValue? (UnpackedFloat.mul _ m.toUInt64.toFloat.toModel.unpack _) = _
    rw [hUnpack₁, hValue]
    exact (congrArg _ (congrArg _ hUnpack₂)).trans (packedValue?_mul hFull he)

theorem packedValue?_ofScientific {m : Nat} (hm : 0 < m) {e : Int} (he : e.natAbs ≤ 1000) :
    packedValue? (UnpackedFloat.ofScientific .binary64 m e) =
      some ((nearestCount (m * 10 ^ e) : Nat) : Int) := by
  have hBits : (2 : Int) ^ Format.binary64.exponentBits = 2048 := by decide
  rw [UnpackedFloat.ofScientific, dif_neg hm.ne', if_neg (by rw [hBits]; omega),
    if_neg (by rw [hBits]; omega)]
  by_cases hNonneg : 0 ≤ e
  · rw [if_pos hNonneg]
    have hValue : (m : Rat) * (10 : Rat) ^ e =
        ((m <<< 53 : Nat) : Rat) * 2 ^ (-(53 : Nat) : Int) *
          ((10 ^ e.toNat : Nat) * 2 ^ (0 : Int)) := by
      have hShift : ((m <<< 53 : Nat) : Rat) * 2 ^ (-(53 : Nat) : Int) = m := by
        rw [Nat.shiftLeft_eq, Nat.cast_mul, Nat.cast_pow, Nat.cast_ofNat, zpow_neg, zpow_natCast,
          mul_inv_cancel_right₀ (pow_ne_zero _ two_ne_zero)]
      have hTen : ((10 ^ e.toNat : Nat) : Rat) = 10 ^ e := by
        rw [Nat.cast_pow, ← zpow_natCast, Int.toNat_of_nonneg hNonneg, Nat.cast_ofNat]
      rw [hShift, hTen, zpow_zero, mul_one]
    have hFull : 2 ^ 52 ≤ m <<< 53 * 10 ^ e.toNat := by
      rw [Nat.shiftLeft_eq]
      calc 2 ^ 52 ≤ 1 * 2 ^ 53 * 1 := by decide
        _ ≤ m * 2 ^ 53 * 10 ^ e.toNat :=
          Nat.mul_le_mul (Nat.mul_le_mul_right _ hm) (Nat.pow_pos (by decide))
    rw [hValue]
    exact packedValue?_mul hFull (by decide)
  · rw [if_neg hNonneg]
    have hValue : (m : Rat) * (10 : Rat) ^ e = m * 2 ^ (0 : Int) /
        ((10 ^ (-e).toNat : Nat) * 2 ^ (0 : Int)) := by
      rw [zpow_zero, mul_one, mul_one, Nat.cast_pow, ← zpow_natCast,
        Int.toNat_of_nonneg (by omega), zpow_neg, div_inv_eq_mul, Nat.cast_ofNat]
    rw [hValue]
    exact packedValue?_div (by decide)

theorem count?_ofScientific {m : Nat} (hm : 0 < m) {e : Int} (he : e.natAbs ≤ 1000) :
    count? (Float.ofScientific m (e < 0) e.natAbs) =
      some ((nearestCount (m * 10 ^ e) : Nat) : Int) := by
  by_cases hShort : m < 2 ^ 53 ∧ e.natAbs ≤ 22
  · exact count?_ofScientific_short hm hShort.1 hShort.2
  · have hExponent : (if (decide (e < 0)) = true then Int.negOfNat e.natAbs
        else Int.ofNat e.natAbs) = e := by
      simp only [decide_eq_true_iff, Int.negOfNat_eq, Int.ofNat_eq_natCast]
      split <;> omega
    rw [Float.ofScientific, dif_neg hShort]
    dsimp only
    rw [hExponent]
    exact packedValue?_ofScientific hm he

/-! ## Whole numbers -/

theorem nearestCount_natCast (n : Nat) : nearestCount n = limited (rounded (units n 0)) := by
  have hValue : (n : Rat) * unity = (units n 0 : Nat) / (1 : Nat) := by
    rw [natCast_units (by decide)]
    simp
  rw [nearestCount_eq Nat.one_pos hValue, roundedFraction, rounded, Nat.div_one, Nat.one_mul]

theorem count?_ofNat (n : Nat) :
    count? (Float.ofNat n) = some ((limited (rounded (units n 0)) : Nat) : Int) := by
  rcases Nat.eq_zero_or_pos n with rfl | hn
  · have hZero : count? (Float.ofNat 0) = some 0 := by decide +kernel
    rw [hZero, units, Nat.zero_mul, limited_rounded_zero]
    rfl
  · have hCount := count?_ofScientific hn (e := 0) (by decide)
    rw [zpow_zero, mul_one, nearestCount_natCast] at hCount
    exact hCount

theorem natAbs_count?_ofInt (n : Int) :
    (count? (Float.ofInt n)).map Int.natAbs = some (limited (rounded (units n.natAbs 0))) := by
  cases n with
  | ofNat k =>
    rw [Float.ofInt, count?_ofNat, Option.map_some, Int.natAbs_natCast, Int.ofNat_eq_natCast,
      Int.natAbs_natCast]
  | negSucc k =>
    have hNeg : Float.ofInt (.negSucc k) = -Float.ofNat k.succ := rfl
    rw [hNeg, count?_neg, count?_ofNat, Option.map_some, Option.map_some, Int.natAbs_neg,
      Int.natAbs_natCast, Int.natAbs_negSucc]

/-- The threshold is the least whole number that is rounded up to `2 ^ 1024`: it is halfway, and the
greatest finite number is the odd one of its neighbours. -/
theorem overflow_le_rounded_iff (n : Nat) :
    overflow ≤ rounded (units n 0) ↔ Nat.pow 2 1024 - Nat.pow 2 970 ≤ n := by
  obtain ⟨least, hLeast⟩ : ∃ least, least = Nat.pow 2 1024 - Nat.pow 2 970 := ⟨_, rfl⟩
  have hReached : overflow ≤ rounded (units least 0) := by
    rw [hLeast]
    decide +kernel
  have hMissed : rounded (units least.pred 0) < overflow := by
    rw [hLeast]
    decide +kernel
  rw [← hLeast]
  constructor
  · contrapose!
    intro hLess
    exact (rounded_mono (Nat.mul_le_mul_right _ (Nat.le_pred_of_lt hLess))).trans_lt hMissed
  · intro hLe
    exact hReached.trans (rounded_mono (Nat.mul_le_mul_right _ hLe))

/-- A whole number is too large exactly if the number nearest to it is infinite. -/
theorem isTooLarge_iff (n : Int) : Amount.isTooLarge n = true ↔
    (count? (Float.ofInt n)).map Int.natAbs = some infinite := by
  rw [natAbs_count?_ofInt, Option.some_inj, limited_eq_infinite_iff, overflow_le_rounded_iff]
  exact decide_eq_true_iff

end TypeDiagram.Number

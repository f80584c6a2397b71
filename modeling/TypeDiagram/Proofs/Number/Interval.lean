import TypeDiagram.Proofs.Number.Quotient

/-! # The values that a number is nearest to

They reach half way to the next number on either side. Below a power of two the next number is only
half as far away as above it. What lies exactly half way belongs to the number with the even
mantissa.
-/

namespace TypeDiagram.Number

theorem nearest_eq_iff {n d m : Nat} (hd : 0 < d) : nearest n d = m ↔
    2 * (m * d) ≤ 2 * n + d ∧ 2 * n ≤ 2 * (m * d) + d ∧
      (2 * (m * d) = 2 * n + d ∨ 2 * n = 2 * (m * d) + d → m % 2 = 0) := by
  have hSplit := Nat.div_add_mod n d
  have hRest := Nat.mod_lt n hd
  have hNext : (n / d + 1) * d = d * (n / d) + d := by rw [Nat.add_one_mul, Nat.mul_comm]
  have hSame : n / d * d = d * (n / d) := Nat.mul_comm _ _
  rw [nearest_eq n hd]
  constructor
  · rintro rfl
    split_ifs
    · rw [Nat.add_zero, hSame]
      omega
    · rcases Nat.mod_two_eq_zero_or_one (n / d) with hEven | hOdd
      · rw [hEven, Nat.add_zero, hSame]
        omega
      · rw [hOdd, hNext]
        omega
    · rw [hNext]
      omega
  · rintro ⟨hLow, hHigh, hTie⟩
    have hLe : m ≤ n / d + 1 := by
      by_contra hGreat
      have hMore : (n / d + 1 + 1) * d ≤ m * d := Nat.mul_le_mul_right d (by omega)
      rw [Nat.add_one_mul, hNext] at hMore
      omega
    have hGe : n / d ≤ m := by
      by_contra hSmall
      have hLess : (m + 1) * d ≤ n / d * d := Nat.mul_le_mul_right d (by omega)
      rw [Nat.add_one_mul, hSame] at hLess
      omega
    rcases (by omega : m = n / d ∨ m = n / d + 1) with rfl | rfl
    · rw [hSame] at hLow hHigh hTie
      split_ifs <;> omega
    · rw [hNext] at hLow hHigh hTie
      split_ifs <;> omega

theorem eq_of_mul_pow_eq {m m' k k' : Nat} (hm : m < 2 ^ 53) (hm' : m' < 2 ^ 53)
    (hFull : 2 ^ 52 ≤ m ∨ k = 0) (hFull' : 2 ^ 52 ≤ m' ∨ k' = 0) (h : m * 2 ^ k = m' * 2 ^ k') :
    m = m' ∧ k = k' := by
  have hLess {a b i j : Nat} (ha : a < 2 ^ 53) (hb : 2 ^ 52 ≤ b ∨ j = 0) (hij : i < j) :
      a * 2 ^ i < b * 2 ^ j := by
    have hb : 2 ^ 52 ≤ b := hb.resolve_right (by omega)
    calc a * 2 ^ i < 2 ^ 53 * 2 ^ i := Nat.mul_lt_mul_of_pos_right ha (Nat.two_pow_pos i)
      _ = 2 ^ (53 + i) := (Nat.pow_add ..).symm
      _ ≤ 2 ^ (52 + j) := Nat.pow_le_pow_right (by decide) (by omega)
      _ = 2 ^ 52 * 2 ^ j := Nat.pow_add ..
      _ ≤ b * 2 ^ j := Nat.mul_le_mul_right _ hb
  rcases lt_trichotomy k k' with hShort | rfl | hLong
  · exact absurd h (hLess hm hFull' hShort).ne
  · exact ⟨Nat.eq_of_mul_eq_mul_right (Nat.two_pow_pos k) h, rfl⟩
  · exact absurd h (hLess hm' hFull hLong).ne'

section Fraction

variable {n d m k : Nat}

theorem lost_of_fraction (hd : 0 < d) (hLow : 2 ^ 52 * (d * 2 ^ k) ≤ n ∨ k = 0)
    (hHigh : n < 2 ^ 53 * (d * 2 ^ k)) : lost (n / d) = k := by
  refine lost_eq (hLow.imp_left fun h => ?_) ?_
  · rw [Nat.le_div_iff_mul_le hd, Nat.mul_assoc, Nat.mul_comm _ d]
    exact h
  · rw [Nat.div_lt_iff_lt_mul hd, Nat.mul_assoc, Nat.mul_comm _ d]
    exact hHigh

theorem roundedFraction_eq_iff (hd : 0 < d) (hm : m < 2 ^ 53) (hFull : 2 ^ 52 ≤ m ∨ k = 0) :
    roundedFraction n d = m * 2 ^ k ↔
      (2 * (m * (d * 2 ^ k)) ≤ 2 * n + d * 2 ^ k ∧ 2 * n ≤ 2 * (m * (d * 2 ^ k)) + d * 2 ^ k) ∧
      (2 * (m * (d * 2 ^ k)) = 2 * n + d * 2 ^ k ∨ 2 * n = 2 * (m * (d * 2 ^ k)) + d * 2 ^ k →
        m % 2 = 0) ∧
      (m = 2 ^ 52 → 0 < k → n < m * (d * 2 ^ k) → 4 * (m * (d * 2 ^ k)) ≤ 4 * n + d * 2 ^ k) := by
  have hPos : 0 < d * 2 ^ k := Nat.mul_pos hd (Nat.two_pow_pos k)
  have hNext (l : Nat) : d * 2 ^ (l + 1) = d * 2 ^ l * 2 := by rw [Nat.pow_succ 2 l, Nat.mul_assoc]
  constructor
  · intro h
    have hScale : 0 < d * 2 ^ lost (n / d) := Nat.mul_pos hd (Nat.two_pow_pos _)
    obtain ⟨hLow, hHigh, hTie⟩ := (nearest_eq_iff (n := n) hScale).mp rfl
    rcases (nearest_fraction_le n hd).lt_or_eq with hLess | hCarry
    · have hDigits : 2 ^ 52 ≤ nearest n (d * 2 ^ lost (n / d)) ∨ lost (n / d) = 0 := by
        rcases Nat.eq_zero_or_pos (lost (n / d)) with hNone | hSome
        · exact .inr hNone
        · exact .inl (le_nearest_fraction n hd hSome)
      obtain ⟨hMantissa, hExponent⟩ := eq_of_mul_pow_eq hLess hm hDigits hFull h
      rw [hMantissa, hExponent] at hLow hHigh hTie
      refine ⟨⟨hLow, hHigh⟩, hTie, fun hPower hSome hBelow => ?_⟩
      have hGreat := le_of_lost (n := n / d) (hExponent ▸ hSome)
      rw [hExponent, Nat.le_div_iff_mul_le hd, Nat.mul_assoc, Nat.mul_comm _ d, ← hPower] at hGreat
      omega
    · have hDouble : roundedFraction n d = 2 ^ 52 * 2 ^ (lost (n / d) + 1) := by
        rw [roundedFraction, hCarry, Nat.pow_succ 2 (lost (n / d))]
        omega
      obtain ⟨rfl, rfl⟩ := eq_of_mul_pow_eq (by decide) hm (.inl le_rfl) hFull (hDouble.symm.trans h)
      have hLess := lt_of_lost (n / d)
      rw [Nat.div_lt_iff_lt_mul hd, Nat.mul_assoc, Nat.mul_comm _ d] at hLess
      rw [hCarry] at hLow
      rw [hNext]
      omega
  · rintro ⟨⟨hLow, hHigh⟩, hTie, hBelow⟩
    by_cases hPower : m = 2 ^ 52 ∧ 0 < k ∧ n < m * (d * 2 ^ k)
    · obtain ⟨rfl, hSome, hLess⟩ := hPower
      have hClose := hBelow rfl hSome hLess
      obtain ⟨l, rfl⟩ : ∃ l, k = l + 1 := ⟨k - 1, by omega⟩
      rw [hNext] at hLow hHigh hClose hLess
      have hScale : 0 < d * 2 ^ l := Nat.mul_pos hd (Nat.two_pow_pos l)
      have hLost : lost (n / d) = l := lost_of_fraction hd (.inl (by omega)) (by omega)
      have hNearest : nearest n (d * 2 ^ l) = 2 ^ 53 :=
        (nearest_eq_iff hScale).mpr ⟨by omega, by omega, fun _ => by decide⟩
      rw [roundedFraction, hLost, hNearest, Nat.pow_succ 2 l]
      omega
    · have hMost : m * (d * 2 ^ k) + d * 2 ^ k ≤ 2 ^ 53 * (d * 2 ^ k) := by
        rw [← Nat.add_one_mul]
        exact Nat.mul_le_mul_right _ hm
      have hLeast : 2 ^ 52 * (d * 2 ^ k) ≤ n ∨ k = 0 := by
        by_cases hNone : k = 0
        · exact .inr hNone
        · left
          have hFull := hFull.resolve_right hNone
          rcases hFull.lt_or_eq with hMore | hSame
          · have hNext : 2 ^ 52 * (d * 2 ^ k) + d * 2 ^ k ≤ m * (d * 2 ^ k) := by
              rw [← Nat.add_one_mul]
              exact Nat.mul_le_mul_right _ hMore
            omega
          · have hAbove : ¬ n < m * (d * 2 ^ k) := fun hLess =>
              hPower ⟨hSame.symm, Nat.pos_of_ne_zero hNone, hLess⟩
            rw [hSame]
            exact not_lt.mp hAbove
      have hLost : lost (n / d) = k := lost_of_fraction hd hLeast (by omega)
      rw [roundedFraction, hLost, (nearest_eq_iff hPos).mpr ⟨hLow, hHigh, hTie⟩]

end Fraction

/-! ## Values -/

theorem two_mul_abs_sub_le_iff (a b w : Rat) :
    2 * |a - b| ≤ w ↔ 2 * b ≤ 2 * a + w ∧ 2 * a ≤ 2 * b + w := by
  constructor
  · intro h
    constructor <;> linarith [le_abs_self (a - b), neg_abs_le (a - b)]
  · rintro ⟨hLow, hHigh⟩
    rcases abs_cases (a - b) with ⟨hAbs, _⟩ | ⟨hAbs, _⟩ <;> rw [hAbs] <;> linarith

theorem two_mul_abs_sub_eq_iff {a b w : Rat} (hw : 0 ≤ w) :
    2 * |a - b| = w ↔ 2 * b = 2 * a + w ∨ 2 * a = 2 * b + w := by
  constructor
  · intro h
    rcases abs_cases (a - b) with ⟨hAbs, _⟩ | ⟨hAbs, _⟩ <;> rw [hAbs] at h
    · exact .inr (by linarith)
    · exact .inl (by linarith)
  · rintro (h | h)
    · rw [abs_of_nonpos (by linarith)]
      linarith
    · rw [abs_of_nonneg (by linarith)]
      linarith

/-- The value lies in the interval around the number with the mantissa and exponent. -/
structure RoundsTo (v : Rat) (m : Nat) (e : Int) : Prop where
  within : 2 * |v - m * 2 ^ e| ≤ 2 ^ e
  tie : 2 * |v - m * 2 ^ e| = 2 ^ e → m % 2 = 0
  below : m = 2 ^ 52 → -1074 < e → v < m * 2 ^ e → 4 * (m * 2 ^ e - v) ≤ 2 ^ e

theorem nearestCount_eq_iff {v : Rat} (hv : 0 ≤ v) {m : Nat} {e : Int} (h : Fits m e)
    (hHigh : e ≤ 971) : nearestCount v = units m e ↔ RoundsTo v m e := by
  have hLow := h.low
  obtain ⟨n, d, hd, hFraction⟩ : ∃ n d : Nat, 0 < d ∧ v * unity = n / d := by
    refine ⟨(v * unity).num.toNat, (v * unity).den, (v * unity).den_pos, ?_⟩
    have hNum : ((v * unity).num.toNat : Rat) = (v * unity).num := by
      exact_mod_cast Int.toNat_of_nonneg (Rat.num_nonneg.mpr (by positivity))
    rw [hNum, Rat.num_div_den]
  have hd' : (0 : Rat) < d := Nat.cast_pos.mpr hd
  have hScale : (0 : Rat) < unity * d := mul_pos (Nat.cast_pos.mpr unity_pos) hd'
  have hUnit : (2 : Rat) ^ e * (unity * d) = (d * 2 ^ (e + 1074).toNat : Nat) := by
    have hOne := natCast_units hLow 1
    rw [units, Nat.one_mul, Nat.cast_one, one_mul] at hOne
    rw [← mul_assoc, ← hOne, mul_comm, Nat.cast_mul]
  have hDistance : (v - m * 2 ^ e) * (unity * d) =
      n - (m * (d * 2 ^ (e + 1074).toNat) : Nat) := by
    rw [sub_mul, mul_assoc (m : Rat), hUnit, ← mul_assoc, hFraction, div_mul_cancel₀ _ hd'.ne',
      Nat.cast_mul m]
  have hLimited : nearestCount v = units m e ↔ roundedFraction n d = m * 2 ^ (e + 1074).toNat := by
    have hUnits := units_lt_overflow h hHigh
    have hInfinite : infinite = 2 * overflow := rfl
    have hSame : units m e = m * 2 ^ (e + 1074).toNat := rfl
    rw [nearestCount_eq hd hFraction, limited, hSame]
    rw [hSame] at hUnits
    split <;> omega
  rw [hLimited, roundedFraction_eq_iff hd h.lt (h.full.imp_right fun hLowest => by omega)]
  generalize d * 2 ^ (e + 1074).toNat = w at *
  generalize m * w = c at *
  have hAbs : |v - m * 2 ^ e| * (unity * d) = |(n : Rat) - c| := by
    rw [← hDistance, abs_mul, abs_of_pos hScale]
  have hWithin : 2 * |v - m * 2 ^ e| ≤ 2 ^ e ↔ 2 * c ≤ 2 * n + w ∧ 2 * n ≤ 2 * c + w := by
    rw [← mul_le_mul_iff_left₀ hScale, mul_assoc, hAbs, hUnit, two_mul_abs_sub_le_iff]
    exact_mod_cast Iff.rfl
  have hTie : 2 * |v - m * 2 ^ e| = 2 ^ e ↔ 2 * c = 2 * n + w ∨ 2 * n = 2 * c + w := by
    rw [← mul_left_inj' hScale.ne', mul_assoc, hAbs, hUnit,
      two_mul_abs_sub_eq_iff (Nat.cast_nonneg w)]
    exact_mod_cast Iff.rfl
  have hBelow : v < m * 2 ^ e ↔ n < c := by
    rw [← sub_neg, ← mul_lt_mul_iff_left₀ hScale, zero_mul, hDistance, sub_neg, Nat.cast_lt]
  have hClose : 4 * (m * 2 ^ e - v) ≤ 2 ^ e ↔ 4 * c ≤ 4 * n + w := by
    rw [← mul_le_mul_iff_left₀ hScale, mul_assoc, ← neg_sub v, neg_mul, hDistance, hUnit]
    have hCast : 4 * -((n : Rat) - c) ≤ w ↔ (4 : Rat) * c ≤ 4 * n + w := by
      constructor <;> intro h <;> linarith
    rw [hCast]
    exact_mod_cast Iff.rfl
  have hExponent : -1074 < e ↔ 0 < (e + 1074).toNat := by omega
  rw [← hWithin, ← hTie, ← hBelow, ← hClose, ← hExponent]
  constructor <;> rintro ⟨hNear, hEven, hLower⟩ <;> exact ⟨hNear, hEven, hLower⟩

end TypeDiagram.Number

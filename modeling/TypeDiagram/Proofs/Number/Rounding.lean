import Mathlib.Algebra.Order.Ring.Nat
import Mathlib.Data.Nat.Log
import Mathlib.Tactic.Linarith

/-! # Rounding to the nearest value

A quotient is rounded to the nearest natural number, halfway to the even one. Shifting a mantissa
bit by bit, with one bit for the last digit that was lost and one for all before it, comes to the
same. With the 53 digits of a binary64 number kept, rounding never swaps two values.
-/

namespace TypeDiagram.Number

open Float.Model UnpackedFloat

/-! ## Quotients -/

/-- The quotient, rounded. -/
def nearest (n d : Nat) : Nat :=
  Accuracy.roundToNearestEven (n / d) (accuracyOfFraction (n % d) d)

theorem nearest_eq (n : Nat) {d : Nat} (hd : 0 < d) : nearest n d = n / d +
    if 2 * (n % d) < d then 0 else if 2 * (n % d) = d then n / d % 2 else 1 := by
  unfold nearest accuracyOfFraction
  rw [Nat.compare_eq_ite_lt]
  split_ifs <;> simp [Accuracy.roundToNearestEven] <;> omega

theorem nearest_bounds (n : Nat) {d : Nat} (hd : 0 < d) :
    n / d ≤ nearest n d ∧ nearest n d ≤ n / d + 1 := by
  rw [nearest_eq n hd]
  split_ifs <;> omega

theorem nearest_mul_self (q : Nat) {d : Nat} (hd : 0 < d) : nearest (q * d) d = q := by
  rw [nearest_eq _ hd, Nat.mul_mod_left, Nat.mul_div_left q hd, Nat.mul_zero, if_pos hd,
    Nat.add_zero]

theorem nearest_mul (n : Nat) {d c : Nat} (hd : 0 < d) (hc : 0 < c) :
    nearest (n * c) (d * c) = nearest n d := by
  have hLess : 2 * (n % d * c) < d * c ↔ 2 * (n % d) < d := by
    rw [← Nat.mul_assoc, Nat.mul_lt_mul_right hc]
  have hSame : 2 * (n % d * c) = d * c ↔ 2 * (n % d) = d := by
    rw [← Nat.mul_assoc, Nat.mul_right_cancel_iff hc]
  rw [nearest_eq _ (Nat.mul_pos hd hc), nearest_eq _ hd, Nat.mul_div_mul_right n d hc,
    Nat.mul_mod_mul_right]
  simp only [hLess, hSame]

theorem nearest_mono {d : Nat} (hd : 0 < d) {m n : Nat} (h : m ≤ n) :
    nearest m d ≤ nearest n d := by
  rcases (Nat.div_le_div_right (c := d) h).lt_or_eq with hLess | hSame
  · have hFirst := (nearest_bounds m hd).2
    have hSecond := (nearest_bounds n hd).1
    omega
  · have hRest : m % d ≤ n % d := by
      have hm := Nat.div_add_mod m d
      have hn := Nat.div_add_mod n d
      rw [hSame] at hm
      omega
    rw [nearest_eq m hd, nearest_eq n hd, hSame]
    split_ifs <;> omega

/-! ## Shifts -/

/-- One more digit is lost: half of the quotient, and a fraction of twice as much. -/
theorem shiftRightOne_fraction (q : Nat) {r d : Nat} (h : r < d) :
    (ExtendedMantissa.ofMantissaAndAccuracy q (accuracyOfFraction r d)).shiftRightOne =
      .ofMantissaAndAccuracy (q / 2) (accuracyOfFraction (r + d * (q % 2)) (d * 2)) := by
  have hRight : accuracyOfFraction (r + d * (q % 2)) (d * 2) =
      if q % 2 = 0 then if r = 0 then .exact else .inexact .lt
      else if r = 0 then .inexact .eq else .inexact .gt := by
    unfold accuracyOfFraction
    rw [Nat.compare_eq_ite_lt]
    rcases Nat.mod_two_eq_zero_or_one q with hq | hq <;> rw [hq] <;> split_ifs <;> grind
  rw [hRight]
  unfold accuracyOfFraction ExtendedMantissa.shiftRightOne
  rw [Nat.compare_eq_ite_lt]
  rcases Nat.mod_two_eq_zero_or_one q with hq | hq <;> rw [hq] <;> split_ifs <;>
    simp_all [ExtendedMantissa.ofMantissaAndAccuracy]

theorem shiftRight_exact (m k : Nat) : ExtendedMantissa.ofMantissaAndAccuracy m .exact >>> k =
    .ofMantissaAndAccuracy (m / 2 ^ k) (accuracyOfFraction (m % 2 ^ k) (2 ^ k)) := by
  change Nat.repeat ExtendedMantissa.shiftRightOne k _ = _
  induction k with
  | zero => simp [Nat.repeat, accuracyOfFraction, Nat.mod_one]
  | succ k ih =>
    have hQuotient : m / 2 ^ (k + 1) = m / 2 ^ k / 2 := by rw [Nat.pow_succ, Nat.div_div_eq_div_mul]
    have hRest : m % 2 ^ (k + 1) = m % 2 ^ k + 2 ^ k * (m / 2 ^ k % 2) := by
      rw [Nat.pow_succ, Nat.mod_mul]
    rw [Nat.repeat, ih, hQuotient, hRest, Nat.pow_succ]
    exact shiftRightOne_fraction _ (Nat.mod_lt m (Nat.two_pow_pos k))

theorem mantissa_shiftRight (m k : Nat) :
    (ExtendedMantissa.ofMantissaAndAccuracy m .exact >>> k).mantissa = m / 2 ^ k := by
  rw [shiftRight_exact]
  generalize accuracyOfFraction _ _ = accuracy
  cases accuracy with
  | exact => rfl
  | inexact o => cases o <;> rfl

theorem roundedMantissa_shiftRight (m k : Nat) :
    (ExtendedMantissa.ofMantissaAndAccuracy m .exact >>> k).roundedMantissa =
      nearest m (2 ^ k) := by
  rw [shiftRight_exact, ExtendedMantissa.roundedMantissa, nearest]
  generalize accuracyOfFraction _ _ = accuracy
  cases accuracy with
  | exact => rfl
  | inexact o => cases o <;> rfl

/-! ## Keeping 53 digits -/

def lost (n : Nat) : Nat := n.log2 - 52

def rounded (n : Nat) : Nat := nearest n (2 ^ lost n) * 2 ^ lost n

theorem lt_of_lost (n : Nat) : n < 2 ^ 53 * 2 ^ lost n := by
  have hLess : n < 2 ^ (n.log2 + 1) := Nat.lt_log2_self
  rw [← Nat.pow_add]
  exact hLess.trans_le (Nat.pow_le_pow_right (by decide) (by unfold lost; omega))

theorem le_of_lost {n : Nat} (h : 0 < lost n) : 2 ^ 52 * 2 ^ lost n ≤ n := by
  unfold lost at h ⊢
  have hn : n ≠ 0 := by
    rintro rfl
    simp at h
  have hLe := Nat.log2_self_le hn
  rwa [← Nat.pow_add, show 52 + (n.log2 - 52) = n.log2 by omega]

theorem lost_mono {m n : Nat} (h : m ≤ n) : lost m ≤ lost n := by
  by_contra hLess
  have hm := le_of_lost (n := m) (by omega)
  have hn := lt_of_lost n
  have hPower : 2 ^ 53 * 2 ^ lost n ≤ 2 ^ 52 * 2 ^ lost m := by
    rw [← Nat.pow_add, ← Nat.pow_add]
    exact Nat.pow_le_pow_right (by decide) (by omega)
  omega

theorem nearest_le (n : Nat) : nearest n (2 ^ lost n) ≤ 2 ^ 53 := by
  have hBound := (nearest_bounds n (Nat.two_pow_pos (lost n))).2
  have hLess := Nat.div_lt_of_lt_mul ((lt_of_lost n).trans_eq (Nat.mul_comm _ _))
  omega

theorem le_nearest {n : Nat} (h : 0 < lost n) : 2 ^ 52 ≤ nearest n (2 ^ lost n) :=
  ((Nat.le_div_iff_mul_le (Nat.two_pow_pos _)).mpr (le_of_lost h)).trans
    (nearest_bounds n (Nat.two_pow_pos _)).1

theorem nearest_pos {n : Nat} (hn : 0 < n) : 0 < nearest n (2 ^ lost n) := by
  rcases Nat.eq_zero_or_pos (lost n) with hNone | hLost
  · have hBound := (nearest_bounds n (Nat.two_pow_pos (lost n))).1
    rw [hNone, Nat.pow_zero, Nat.div_one] at hBound
    rw [hNone]
    exact hn.trans_le hBound
  · exact (Nat.two_pow_pos 52).trans_le (le_nearest hLost)

/-- No digit but zeros is lost by a number of at most 53 digits, zeros behind them apart. -/
theorem rounded_of_lt {m k : Nat} (h : m < 2 ^ 53) : rounded (m * 2 ^ k) = m * 2 ^ k := by
  have hLost : lost (m * 2 ^ k) ≤ k := by
    by_contra hLess
    have hLe := le_of_lost (n := m * 2 ^ k) (by omega)
    have hPower : 2 ^ 53 * 2 ^ k ≤ 2 ^ 52 * 2 ^ lost (m * 2 ^ k) := by
      rw [← Nat.pow_add, ← Nat.pow_add]
      exact Nat.pow_le_pow_right (by decide) (by omega)
    have hm := Nat.mul_lt_mul_of_pos_right h (Nat.two_pow_pos k)
    omega
  have hSplit : m * 2 ^ k = m * 2 ^ (k - lost (m * 2 ^ k)) * 2 ^ lost (m * 2 ^ k) := by
    rw [Nat.mul_assoc, ← Nat.pow_add, Nat.sub_add_cancel hLost]
  unfold rounded
  generalize lost (m * 2 ^ k) = d at hSplit
  rw [hSplit, nearest_mul_self _ (Nat.two_pow_pos d)]

theorem rounded_mono {m n : Nat} (h : m ≤ n) : rounded m ≤ rounded n := by
  unfold rounded
  rcases (lost_mono h).lt_or_eq with hLess | hSame
  · -- The greater number loses more digits, so it has 53 of them left: the least number that
    -- does is not below the greatest to which the other can be rounded.
    calc nearest m (2 ^ lost m) * 2 ^ lost m
        ≤ 2 ^ 53 * 2 ^ lost m := Nat.mul_le_mul_right _ (nearest_le m)
      _ = 2 ^ (53 + lost m) := (Nat.pow_add ..).symm
      _ ≤ 2 ^ (52 + lost n) := Nat.pow_le_pow_right (by decide) (by omega)
      _ = 2 ^ 52 * 2 ^ lost n := Nat.pow_add ..
      _ ≤ nearest n (2 ^ lost n) * 2 ^ lost n := Nat.mul_le_mul_right _ (le_nearest (by omega))
  · rw [hSame]
    exact Nat.mul_le_mul_right _ (nearest_mono (Nat.two_pow_pos _) h)

end TypeDiagram.Number

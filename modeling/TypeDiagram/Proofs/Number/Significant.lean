import Mathlib.Data.List.TakeWhile
import Mathlib.Tactic.FieldSimp
import Mathlib.Tactic.Linarith
import TypeDiagram.Proofs.Number.Written

/-! # Significant digits

A positive value that is rounded to a number of significant digits becomes the nearest of all
decimals with so many digits. Where its digits end in zeros, these may be dropped.
-/

namespace TypeDiagram.Number

/-! ## Values -/

def Decimal.value (d : Decimal) : Rat := d.digits * 10 ^ d.exponent

def Ratio.value (r : Ratio) : Rat := r.num / r.den

theorem ten_zpow_pos (e : Int) : (0 : Rat) < 10 ^ e := zpow_pos (by norm_num) e

theorem natCast_pow_natAbs {b : Nat} {e : Int} (he : 0 ≤ e) :
    ((Nat.pow b e.natAbs : Nat) : Rat) = (b : Rat) ^ e := by
  rw [Nat.pow_eq, Nat.cast_pow, ← zpow_natCast, Int.natAbs_of_nonneg he]

theorem natCast_pow_natAbs_neg {b : Nat} {e : Int} (he : e < 0) :
    ((Nat.pow b e.natAbs : Nat) : Rat) = ((b : Rat) ^ e)⁻¹ := by
  rw [Nat.pow_eq, Nat.cast_pow, ← zpow_natCast, Int.ofNat_natAbs_of_nonpos he.le, zpow_neg]

theorem Decimal.value_nonneg (d : Decimal) : 0 ≤ d.value :=
  mul_nonneg (Nat.cast_nonneg _) (ten_zpow_pos _).le

namespace Ratio

theorem value_ofBinary (m : Nat) (e : Int) : (ofBinary m e).value = m * 2 ^ e := by
  unfold ofBinary value
  split
  · rename_i he
    rw [natCast_pow_natAbs_neg he, Nat.cast_ofNat, div_inv_eq_mul]
  · rename_i he
    rw [Nat.cast_mul, natCast_pow_natAbs (not_lt.mp he), Nat.cast_ofNat, Nat.cast_one, div_one]

theorem den_ofBinary_pos (m : Nat) (e : Int) : 0 < (ofBinary m e).den := by
  unfold ofBinary
  split
  · exact Nat.two_pow_pos _
  · exact Nat.one_pos

theorem value_scale (r : Ratio) (e : Int) : (r.scale e).value = r.value * 10 ^ e := by
  unfold scale value
  split
  · rename_i he
    rw [Nat.cast_mul, natCast_pow_natAbs_neg he, Nat.cast_ofNat, ← div_div, div_inv_eq_mul]
  · rename_i he
    rw [Nat.cast_mul, natCast_pow_natAbs (not_lt.mp he), Nat.cast_ofNat]
    ring

theorem den_scale_pos {r : Ratio} (hr : 0 < r.den) (e : Int) : 0 < (r.scale e).den := by
  unfold scale
  split
  · exact Nat.mul_pos hr (Nat.pow_pos (by decide))
  · exact hr

theorem abs_round_sub_le {r : Ratio} (hr : 0 < r.den) : |(r.round : Rat) - r.value| ≤ 1 / 2 := by
  have hDen : (0 : Rat) < r.den := Nat.cast_pos.mpr hr
  have hSplit : r.value = (r.num / r.den : Nat) + (r.num % r.den : Nat) / r.den := by
    have hNum : (r.num : Rat) = r.den * (r.num / r.den : Nat) + (r.num % r.den : Nat) := by
      exact_mod_cast (Nat.div_add_mod r.num r.den).symm
    rw [value, hNum]
    field_simp
  have hLess : ((r.num % r.den : Nat) : Rat) < r.den := Nat.cast_lt.mpr (Nat.mod_lt _ hr)
  have hLow : (0 : Rat) ≤ (r.num % r.den : Nat) / r.den := by positivity
  rw [round, roundDiv, hSplit]
  split
  · rename_i hDown
    have hHalf : 2 * (r.num % r.den) ≤ r.den := by
      simp only [Bool.or_eq_true, Bool.and_eq_true, decide_eq_true_iff, beq_iff_eq] at hDown
      omega
    have hHalf' : ((r.num % r.den : Nat) : Rat) / r.den ≤ 1 / 2 := by
      rw [div_le_div_iff₀ hDen two_pos]
      exact_mod_cast (by omega : r.num % r.den * 2 ≤ 1 * r.den)
    rw [abs_le]
    constructor <;> linarith
  · rename_i hUp
    have hHalf : r.den ≤ 2 * (r.num % r.den) := by
      simp only [Bool.or_eq_true, Bool.and_eq_true, decide_eq_true_iff, beq_iff_eq] at hUp
      omega
    have hHalf' : 1 / 2 ≤ ((r.num % r.den : Nat) : Rat) / r.den := by
      rw [div_le_div_iff₀ two_pos hDen]
      exact_mod_cast (by omega : 1 * r.den ≤ r.num % r.den * 2)
    have hHigh : ((r.num % r.den : Nat) : Rat) / r.den ≤ 1 := by
      rw [div_le_one hDen]
      exact hLess.le
    rw [Nat.cast_add, Nat.cast_one, abs_le]
    constructor <;> linarith

theorem abs_round_sub_le_abs {r : Ratio} (hr : 0 < r.den) (n : Int) :
    |(r.round : Rat) - r.value| ≤ |n - r.value| := by
  by_contra hNearer
  rw [not_le] at hNearer
  have hRound := abs_round_sub_le hr
  have hBetween : |(r.round : Rat) - n| < 1 := by
    calc |(r.round : Rat) - n| = |(r.round - r.value) - (n - r.value)| := by ring_nf
      _ ≤ |r.round - r.value| + |n - r.value| := abs_sub _ _
      _ < 1 := by linarith
  have hSame : (r.round : Int) = n := by
    have hInt : |(r.round : Int) - n| < 1 := by exact_mod_cast hBetween
    rw [Int.abs_lt_one_iff] at hInt
    omega
  rw [← hSame] at hNearer
  exact lt_irrefl _ hNearer

/-! ## The leading digit -/

theorem toDigits_bounds {n : Nat} (hn : 0 < n) :
    10 ^ ((Nat.toDigits 10 n).length - 1) ≤ n ∧ n < 10 ^ (Nat.toDigits 10 n).length := by
  have hLength := Nat.length_toDigits_pos (b := 10) (n := n)
  refine ⟨?_, (Nat.length_toDigits_le_iff (by decide) hLength).mp le_rfl⟩
  rcases Nat.eq_zero_or_pos ((Nat.toDigits 10 n).length - 1) with hOne | hMore
  · rw [hOne, Nat.pow_zero]
    exact hn
  · by_contra hLess
    have hShort := (Nat.length_toDigits_le_iff (by decide) hMore).mpr (not_le.mp hLess)
    omega

theorem leadingZeros_spec (fuel : Nat) {num den : Nat} (hReach : den ≤ 10 ^ fuel * num) :
    den ≤ 10 ^ leadingZeros fuel num den * num ∧
      (0 < leadingZeros fuel num den → 10 ^ (leadingZeros fuel num den - 1) * num < den) := by
  induction fuel generalizing num with
  | zero => exact ⟨hReach, fun h => absurd h (lt_irrefl 0)⟩
  | succ fuel ih =>
    rw [leadingZeros]
    split
    · rename_i hLe
      exact ⟨by simpa using hLe, fun h => absurd h (lt_irrefl 0)⟩
    · rename_i hLess
      rw [Nat.pow_succ, Nat.mul_assoc] at hReach
      obtain ⟨hLow, hHigh⟩ := ih hReach
      refine ⟨by rwa [Nat.pow_succ, Nat.mul_assoc], fun _ => ?_⟩
      rw [Nat.add_sub_cancel]
      rcases Nat.eq_zero_or_pos (leadingZeros fuel (10 * num) den) with hNone | hSome
      · rw [hNone, Nat.pow_zero, Nat.one_mul]
        exact not_le.mp hLess
      · have hLast := hHigh hSome
        rwa [← Nat.mul_assoc, ← Nat.pow_succ, Nat.succ_eq_add_one, Nat.sub_add_cancel hSome]
          at hLast

/-- A value that is not too small is between the powers of ten around its leading digit. -/
theorem leadingExponent_spec {r : Ratio} (hr : 0 < r.den) (hReach : r.den ≤ 10 ^ 400 * r.num) :
    (10 : Rat) ^ r.leadingExponent ≤ r.value ∧ r.value < 10 ^ (r.leadingExponent + 1) := by
  have hDen : (0 : Rat) < r.den := Nat.cast_pos.mpr hr
  unfold leadingExponent value
  rw [le_div_iff₀ hDen, div_lt_iff₀ hDen]
  split
  · rename_i hLe
    have hPos : 0 < r.num / r.den := Nat.div_pos hLe hr
    obtain ⟨hLow, hHigh⟩ := toDigits_bounds hPos
    have hLength := Nat.length_toDigits_pos (b := 10) (n := r.num / r.den)
    generalize (Nat.toDigits 10 (r.num / r.den)).length = l at *
    have hLow' : 10 ^ (l - 1) * r.den ≤ r.num := (Nat.le_div_iff_mul_le hr).mp hLow
    have hHigh' : r.num < 10 ^ l * r.den := (Nat.div_lt_iff_lt_mul hr).mp hHigh
    have hExponent : ((l : Int) - 1) = ((l - 1 : Nat) : Int) := by omega
    rw [sub_add_cancel, hExponent, zpow_natCast, zpow_natCast]
    exact ⟨by exact_mod_cast hLow', by exact_mod_cast hHigh'⟩
  · rename_i hLess
    obtain ⟨hLow, hHigh⟩ := leadingZeros_spec 400 hReach
    have hSome : 0 < leadingZeros 400 r.num r.den := by
      rw [Nat.pos_iff_ne_zero]
      intro hNone
      rw [hNone, Nat.pow_zero, Nat.one_mul] at hLow
      exact hLess hLow
    have hHigh := hHigh hSome
    generalize leadingZeros 400 r.num r.den = k at *
    have hExponent : (-(k : Int) + 1) = -((k - 1 : Nat) : Int) := by omega
    rw [hExponent, zpow_neg, zpow_neg, zpow_natCast, zpow_natCast, inv_mul_le_iff₀ (by positivity),
      lt_inv_mul_iff₀ (by positivity)]
    exact ⟨by exact_mod_cast hLow, by exact_mod_cast hHigh⟩

end Ratio

/-! ## Rounding to significant digits -/

namespace Decimal

variable {r : Ratio} (count : Nat)

theorem exponent_round (r : Ratio) :
    (round count r).exponent = r.leadingExponent - (count - 1 : Nat) := rfl

theorem value_round (r : Ratio) : (round count r).value =
    (r.scale (-(round count r).exponent)).round * 10 ^ (round count r).exponent := rfl

theorem value_round_sub (r : Ratio) : (round count r).value - r.value =
    ((r.scale (-(round count r).exponent)).round - (r.scale (-(round count r).exponent)).value) *
      10 ^ (round count r).exponent := by
  rw [value_round, Ratio.value_scale, sub_mul, mul_assoc r.value, ← zpow_add₀ (by norm_num),
    neg_add_cancel, zpow_zero, mul_one]

theorem abs_round_sub_le_half (hr : 0 < r.den) :
    |(round count r).value - r.value| ≤ 1 / 2 * 10 ^ (round count r).exponent := by
  rw [value_round_sub, abs_mul, abs_of_pos (ten_zpow_pos _)]
  exact mul_le_mul_of_nonneg_right (Ratio.abs_round_sub_le (Ratio.den_scale_pos hr _))
    (ten_zpow_pos _).le

theorem abs_round_sub_le_grid (hr : 0 < r.den) (n : Int) :
    |(round count r).value - r.value| ≤ |n * 10 ^ (round count r).exponent - r.value| := by
  have hScaled : n * 10 ^ (round count r).exponent - r.value =
      (n - (r.scale (-(round count r).exponent)).value) * 10 ^ (round count r).exponent := by
    rw [Ratio.value_scale, sub_mul, mul_assoc r.value, ← zpow_add₀ (by norm_num),
      neg_add_cancel, zpow_zero, mul_one]
  rw [value_round_sub, hScaled, abs_mul, abs_mul]
  exact mul_le_mul_of_nonneg_right
    (Ratio.abs_round_sub_le_abs (Ratio.den_scale_pos hr _) n) (abs_nonneg _)

theorem exists_value_eq_mul {d : Decimal} {e : Int} (he : e ≤ d.exponent) :
    ∃ n : Nat, d.value = n * 10 ^ e := by
  refine ⟨d.digits * 10 ^ (d.exponent - e).toNat, ?_⟩
  rw [value, Nat.cast_mul, Nat.cast_pow, mul_assoc, ← zpow_natCast, Nat.cast_ofNat,
    ← zpow_add₀ (by norm_num), Int.toNat_of_nonneg (by omega), sub_add_cancel]

/-- A decimal of so many digits that is not below the leading digit is a multiple of the last
place. -/
theorem exponent_round_le {count : Nat} (hCount : 0 < count) {d : Decimal}
    (hd : d.digits < 10 ^ count) (h : 10 ^ r.leadingExponent ≤ d.value) :
    (round count r).exponent ≤ d.exponent := by
  by_contra hFine
  have hBelow : d.value < 10 ^ r.leadingExponent := by
    calc d.value < 10 ^ count * 10 ^ d.exponent := by
          refine mul_lt_mul_of_pos_right ?_ (ten_zpow_pos _)
          exact_mod_cast hd
      _ = 10 ^ (count + d.exponent) := by rw [zpow_add₀ (by norm_num), zpow_natCast]
      _ ≤ 10 ^ r.leadingExponent := by
          rw [exponent_round] at hFine
          exact zpow_le_zpow_right₀ (by norm_num) (by omega)
  exact hBelow.not_ge h

theorem ten_zpow_leadingExponent (r : Ratio) : (10 : Rat) ^ r.leadingExponent =
    ((10 ^ (count - 1) : Nat) : Int) * (10 : Rat) ^ (round count r).exponent := by
  rw [Int.cast_natCast, Nat.cast_pow, ← zpow_natCast, Nat.cast_ofNat,
    ← zpow_add₀ (by norm_num), exponent_round, add_sub_cancel]

theorem abs_round_sub_le {count : Nat} (hCount : 0 < count) (hr : 0 < r.den)
    (hReach : r.den ≤ 10 ^ 400 * r.num) {d : Decimal} (hd : d.digits < 10 ^ count) :
    |(round count r).value - r.value| ≤ |d.value - r.value| := by
  obtain ⟨hLow, _⟩ := Ratio.leadingExponent_spec hr hReach
  rcases le_or_gt (10 ^ r.leadingExponent) d.value with hAbove | hBelow
  · obtain ⟨n, hGrid⟩ := exists_value_eq_mul (exponent_round_le hCount hd hAbove)
    rw [hGrid]
    exact abs_round_sub_le_grid count hr n
  · have hNearest := abs_round_sub_le_grid count hr (10 ^ (count - 1) : Nat)
    rw [← ten_zpow_leadingExponent] at hNearest
    refine hNearest.trans ?_
    rw [abs_of_nonpos (by linarith), abs_of_nonpos (by linarith)]
    linarith

theorem ten_zpow_le_value_round (hr : 0 < r.den) (hReach : r.den ≤ 10 ^ 400 * r.num) :
    10 ^ r.leadingExponent ≤ (round count r).value := by
  obtain ⟨hLow, _⟩ := Ratio.leadingExponent_spec hr hReach
  have hNearest := abs_round_sub_le_grid count hr (10 ^ (count - 1) : Nat)
  rw [← ten_zpow_leadingExponent, abs_of_nonpos (sub_nonpos.mpr hLow)] at hNearest
  linarith [(abs_le.mp hNearest).1]

/-- At most so many digits are kept, unless a carry makes a power of ten of them. -/
theorem digits_round_le {count : Nat} (hCount : 0 < count) (hr : 0 < r.den)
    (hReach : r.den ≤ 10 ^ 400 * r.num) : (round count r).digits ≤ 10 ^ count := by
  obtain ⟨_, hHigh⟩ := Ratio.leadingExponent_spec hr hReach
  by_contra hMore
  have hNearest := Ratio.abs_round_sub_le
    (Ratio.den_scale_pos hr (-(round count r).exponent))
  have hScaled : (r.scale (-(round count r).exponent)).value < 10 ^ count := by
    calc (r.scale (-(round count r).exponent)).value
        = r.value * 10 ^ (-(round count r).exponent) := Ratio.value_scale _ _
      _ < 10 ^ (r.leadingExponent + 1) * 10 ^ (-(round count r).exponent) :=
          mul_lt_mul_of_pos_right hHigh (ten_zpow_pos _)
      _ = 10 ^ count := by
          rw [← zpow_add₀ (by norm_num), exponent_round, ← zpow_natCast]
          congr 1
          omega
  have hDigits : (10 : Rat) ^ count + 1 ≤ (r.scale (-(round count r).exponent)).round := by
    exact_mod_cast not_le.mp hMore
  rw [abs_le] at hNearest
  linarith [hNearest.2]

/-! ## Zeros at the end -/

theorem value_spread (d : Decimal) : d.spread.value = d.value := by
  unfold spread value
  split
  · rename_i he
    rw [Nat.cast_mul, ← Nat.pow_eq, natCast_pow_natAbs he, Nat.cast_ofNat, zpow_zero, mul_one]
  · rfl

theorem digits_eq_dropZeros_mul (d : Decimal) :
    ∃ k : Nat, d.dropZeros.value = d.value ∧ d.digits = d.dropZeros.digits * 10 ^ k := by
  unfold dropZeros
  dsimp only
  split
  · rename_i hZero
    refine ⟨0, ?_, beq_iff_eq.mp hZero⟩
    rw [value, value, beq_iff_eq.mp hZero]
    simp
  · generalize hZeros : ((Nat.toDigits 10 d.digits).reverse.takeWhile (· == '0')).length = k
    have hSplit : Nat.toDigits 10 d.digits =
        ((Nat.toDigits 10 d.digits).reverse.dropWhile (· == '0')).reverse ++
          List.replicate k '0' := by
      have hRun : (Nat.toDigits 10 d.digits).reverse.takeWhile (· == '0') =
          List.replicate k '0' := List.eq_replicate_iff.mpr
        ⟨hZeros, fun c hc => by simpa using List.mem_takeWhile_imp hc⟩
      rw [← List.reverse_replicate, ← hRun, ← List.reverse_append, List.takeWhile_append_dropWhile,
        List.reverse_reverse]
    have hDigits := Numeral.natOf_toDigits d.digits
    rw [hSplit, natOf_append_zeros] at hDigits
    generalize Numeral.natOf _ = n at hDigits
    have hQuotient : d.digits / Nat.pow 10 k = n := by
      rw [← hDigits, Nat.pow_eq, Nat.mul_div_cancel _ (Nat.pow_pos (by decide))]
    refine ⟨k, ?_, by rw [hQuotient, hDigits]⟩
    rw [value, value, hQuotient, ← hDigits, Nat.cast_mul, Nat.cast_pow, mul_assoc, add_comm,
      zpow_add₀ (by norm_num), zpow_natCast, Nat.cast_ofNat]

theorem value_dropZeros (d : Decimal) : d.dropZeros.value = d.value := by
  obtain ⟨_, hValue, _⟩ := digits_eq_dropZeros_mul d
  exact hValue

end Decimal

/-! ## Six digits -/

/-- The decimal of at most six digits nearest to a value, without zeros at its end. -/
def sixDigits (m : Nat) (e : Int) : Decimal := (Decimal.round 6 (Ratio.ofBinary m e)).dropZeros

section SixDigits

variable {m : Nat} {e : Int} (hm : 0 < m) (he : -1074 ≤ e)

include hm he in
/-- No finite binary64 number but zero is too small for its leading digit to be found. -/
theorem reach_ofBinary : (Ratio.ofBinary m e).den ≤ 10 ^ 400 * (Ratio.ofBinary m e).num := by
  have hTen (k : Nat) : 2 ^ (3 * k) ≤ 10 ^ k := by
    rw [Nat.pow_mul]
    exact Nat.pow_le_pow_left (by decide) k
  unfold Ratio.ofBinary
  split
  · calc 2 ^ e.natAbs ≤ 2 ^ (3 * 400) := Nat.pow_le_pow_right (by decide) (by omega)
      _ ≤ 10 ^ 400 := hTen 400
      _ ≤ 10 ^ 400 * m := Nat.le_mul_of_pos_right _ hm
  · exact Nat.mul_pos (pow_pos (by decide : 0 < 10) 400) (Nat.mul_pos hm (Nat.two_pow_pos _))

theorem value_sixDigits (m : Nat) (e : Int) :
    (sixDigits m e).value = (Decimal.round 6 (Ratio.ofBinary m e)).value :=
  Decimal.value_dropZeros _

include hm he in
theorem digits_sixDigits_lt : (sixDigits m e).digits < 10 ^ 6 := by
  have hLe := Decimal.digits_round_le (by decide : 0 < 6) (Ratio.den_ofBinary_pos m e)
    (reach_ofBinary hm he)
  obtain ⟨k, _, hDigits⟩ := Decimal.digits_eq_dropZeros_mul (Decimal.round 6 (Ratio.ofBinary m e))
  rcases hLe.lt_or_eq with hLess | hCarry
  · exact (Nat.le_mul_of_pos_right _ (Nat.pow_pos (by decide))).trans_lt (hDigits ▸ hLess)
  · have hZeros : ((Nat.toDigits 10 (10 ^ 6)).reverse.takeWhile (· == '0')).length = 6 := by
      decide +kernel
    unfold sixDigits Decimal.dropZeros
    rw [hCarry, hZeros, if_neg (by decide)]
    change 10 ^ 6 / 10 ^ 6 < 10 ^ 6
    decide

include hm he in
theorem abs_sixDigits_sub_le {d : Decimal} (hd : d.digits < 10 ^ 6) :
    |(sixDigits m e).value - m * 2 ^ e| ≤ |d.value - m * 2 ^ e| := by
  rw [value_sixDigits, ← Ratio.value_ofBinary]
  exact Decimal.abs_round_sub_le (by decide) (Ratio.den_ofBinary_pos m e) (reach_ofBinary hm he) hd

end SixDigits

/-- A finite number is written as the nearest decimal of six digits, and this is what the text reads
back as. -/
theorem read?_general {x : Float} {negative : Bool} {m : Nat} {e : Int}
    (hx : Binary.ofFloat x = .finite negative m e) (hm : 0 < m) :
    ∃ d ∈ [sixDigits m e, (sixDigits m e).spread],
      Numeral.read? (general x) = some (.finite negative d.digits d.exponent) := by
  unfold general
  rw [hx]
  dsimp only
  rw [if_neg (by simpa using hm.ne')]
  split
  · exact ⟨_, .tail _ (.head _), Decimal.read?_positional _ negative⟩
  · exact ⟨_, .head _, Decimal.read?_scientific _ negative⟩

theorem read?_general_zero {x : Float} {negative : Bool} {e : Int}
    (hx : Binary.ofFloat x = .finite negative 0 e) :
    Numeral.read? (general x) = some (.finite negative 0 0) := by
  unfold general
  rw [hx]
  change Numeral.read? (signed negative "0") = _
  cases negative <;> decide +kernel

end TypeDiagram.Number

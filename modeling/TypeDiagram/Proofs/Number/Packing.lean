import TypeDiagram.Proofs.Number.Count
import TypeDiagram.Proofs.Number.Rounding

/-! # Packed numbers

A number is packed after its mantissa was brought to 53 digits. What comes out counts as the first
digits of what went in, or as infinity where these are too much; so no two counts are swapped.
-/

namespace TypeDiagram.Number

open Float.Model UnpackedFloat

/-! ## Rounding -/

/-- The exponent at which a mantissa has 53 digits, or the lowest one. -/
def target (m : Nat) (e : Int) : Int := max (m.log2 + 1 + e - 53) (-1074)

theorem shiftToTargetExponent_eq (m : Nat) (e : Int) :
    shiftToTargetExponent .binary64 m e .exact =
      (ExtendedMantissa.ofMantissaAndAccuracy m .exact >>> (target m e - e).toNat,
        e + (target m e - e).toNat) := rfl

theorem log2_shift {m : Nat} (hm : 0 < m) (k : Nat) : (m * 2 ^ k).log2 = m.log2 + k := by
  rw [Nat.log2_eq_iff (Nat.mul_pos hm (Nat.two_pow_pos k)).ne']
  have hLe := Nat.log2_self_le hm.ne'
  have hLess : m < 2 ^ (m.log2 + 1) := Nat.lt_log2_self
  constructor
  · rw [Nat.pow_add]
    exact Nat.mul_le_mul_right _ hLe
  · rw [Nat.add_right_comm, Nat.pow_add]
    exact Nat.mul_lt_mul_of_pos_right hLess (Nat.two_pow_pos k)

theorem shift_eq {m : Nat} (hm : 0 < m) {e : Int} (he : -1074 ≤ e) (hTarget : e ≤ target m e) :
    let shifted := shiftToTargetExponent .binary64 m e .exact
    shifted.2 = (lost (units m e) : Int) - 1074 ∧
      shifted.1.roundedMantissa = nearest (units m e) (2 ^ lost (units m e)) := by
  have hLog : (units m e).log2 = m.log2 + (e + 1074).toNat := log2_shift hm _
  have hLost : lost (units m e) = (target m e - e).toNat + (e + 1074).toNat := by
    unfold lost
    unfold target at hTarget ⊢
    omega
  rw [shiftToTargetExponent_eq]
  dsimp only
  constructor
  · omega
  · rw [roundedMantissa_shiftRight, hLost, Nat.pow_add, units,
      nearest_mul m (Nat.two_pow_pos _) (Nat.two_pow_pos _)]

/-- A mantissa that was rounded up to 54 digits gives the last of them to the exponent. -/
theorem carry_eq {m : Nat} (hm : 0 < m) (hLe : m ≤ 2 ^ 53) {e : Int} (he : -1074 ≤ e)
    (hFull : 2 ^ 52 ≤ m ∨ e = -1074) :
    let shifted := shiftToTargetExponent .binary64 m e .exact
    0 < shifted.1.mantissa ∧ Fits shifted.1.mantissa shifted.2 ∧
      units shifted.1.mantissa shifted.2 = units m e := by
  rw [shiftToTargetExponent_eq]
  dsimp only
  rw [mantissa_shiftRight]
  rcases hLe.lt_or_eq with hLess | rfl
  · have hLog : m.log2 < 53 := (Nat.log2_lt hm.ne').mpr hLess
    have hStays : (target m e - e).toNat = 0 := by
      unfold target
      omega
    rw [hStays, Nat.pow_zero, Nat.div_one, Int.natCast_zero, Int.add_zero]
    exact ⟨hm, ⟨hLess, he, hFull⟩, rfl⟩
  · have hLog : (2 ^ 53).log2 = 53 := by decide
    have hShift : (target (2 ^ 53) e - e).toNat = 1 := by
      unfold target
      omega
    have hHalf : 2 ^ 53 / 2 ^ 1 = 2 ^ 52 := by decide
    rw [hShift, hHalf]
    exact ⟨by decide, ⟨by decide, by omega, .inl le_rfl⟩, (units_double (2 ^ 52) he).symm⟩

/-- Where the exponent is too high for 53 digits, zeros are added; nothing is lost. -/
theorem decreaseExponent_eq {m : Nat} (hm : 0 < m) {e : Int} (he : -1074 ≤ e) :
    let decreased := decreaseExponent m e (target m e)
    0 < decreased.1 ∧ -1074 ≤ decreased.2 ∧
      decreased.2 ≤ target decreased.1 decreased.2 ∧
      units decreased.1 decreased.2 = units m e := by
  unfold decreaseExponent
  dsimp only
  rw [Nat.shiftLeft_eq]
  have hLog := log2_shift hm (e - target m e).toNat
  have hLow : -1074 ≤ target m e := le_max_right _ _
  refine ⟨Nat.mul_pos hm (Nat.two_pow_pos _), by omega, ?_, ?_⟩
  · unfold target at hLog ⊢
    omega
  · rw [units, units, Nat.mul_assoc, ← Nat.pow_add]
    congr 2
    omega

theorem round_shifted (s : Sign) {m : Nat} {e : Int} {mantissa : Nat} {exponent : Int} :
    let decreased := decreaseExponent m e (target m e)
    let first := shiftToTargetExponent .binary64 decreased.1 decreased.2 .exact
    let second := shiftToTargetExponent .binary64 mantissa exponent .exact
    first.1.roundedMantissa = mantissa → first.2 = exponent → ∀ h : 0 < second.1.mantissa,
      UnpackedFloat.round .binary64 s m e = .finite s second.1.mantissa second.2 h := by
  rintro decreased first second rfl rfl h
  exact dif_neg h.ne'

/-- A number is rounded to a mantissa and an exponent that fit, and to the count of its first
digits. -/
theorem round_eq (s : Sign) {m : Nat} (hm : 0 < m) {e : Int} (he : -1074 ≤ e) :
    ∃ m' e' hm', UnpackedFloat.round .binary64 s m e = .finite s m' e' hm' ∧ Fits m' e' ∧
      units m' e' = rounded (units m e) := by
  obtain ⟨hm₁, he₁, hTarget, hUnits⟩ := decreaseExponent_eq hm he
  obtain ⟨hExponent, hMantissa⟩ := shift_eq hm₁ he₁ hTarget
  rw [hUnits] at hExponent hMantissa
  have hFull : 2 ^ 52 ≤ nearest (units m e) (2 ^ lost (units m e)) ∨
      (lost (units m e) : Int) - 1074 = -1074 := by
    rcases Nat.eq_zero_or_pos (lost (units m e)) with hNone | hLost
    · exact .inr (by omega)
    · exact .inl (le_nearest hLost)
  obtain ⟨hPositive, hFits, hSame⟩ := carry_eq (nearest_pos (units_pos hm e)) (nearest_le _)
    (by omega) hFull
  refine ⟨_, _, hPositive, ?_, hFits, hSame.trans ?_⟩
  · exact round_shifted s hMantissa hExponent hPositive
  · rw [units, rounded]
    congr 2
    omega

/-! ## Counts that are rounded -/

/-- A count that is too much is that of infinity. -/
def limited (n : Nat) : Nat := if n < overflow then n else infinite

def nearestValue (x : Int) : Int :=
  if 0 ≤ x then limited (rounded x.toNat) else -limited (rounded (-x).toNat)

theorem limited_mono {m n : Nat} (h : m ≤ n) : limited m ≤ limited n := by
  have hInfinite : infinite = 2 * overflow := rfl
  unfold limited
  split_ifs <;> omega

theorem limited_of_le {n : Nat} (h : overflow ≤ n) : limited n = infinite := if_neg (by omega)

theorem limited_eq_infinite_iff (n : Nat) : limited n = infinite ↔ overflow ≤ n := by
  have hPositive := overflow_pos
  have hInfinite : infinite = 2 * overflow := rfl
  unfold limited
  split_ifs <;> omega

theorem limited_rounded_zero : limited (rounded 0) = 0 := by
  have hZero : rounded (0 * 2 ^ 0) = 0 * 2 ^ 0 := rounded_of_lt (by decide)
  rw [Nat.zero_mul] at hZero
  rw [hZero]
  exact if_pos overflow_pos

theorem nearestValue_zero : nearestValue 0 = 0 := by
  rw [nearestValue, if_pos le_rfl, Int.toNat_zero, limited_rounded_zero]
  rfl

theorem nearestValue_apply (s : Sign) (n : Nat) :
    nearestValue (s.apply n) = s.apply (limited (rounded n)) := by
  unfold nearestValue Sign.apply
  cases s with
  | positive => simp
  | negative =>
    rcases Nat.eq_zero_or_pos n with rfl | hn
    · simp [limited_rounded_zero]
    · simp [hn.ne']

theorem nearestValue_mono {x y : Int} (h : x ≤ y) : nearestValue x ≤ nearestValue y := by
  unfold nearestValue
  split_ifs with hx hy hy
  · have hRounded := limited_mono (rounded_mono (Int.toNat_le_toNat h))
    omega
  · omega
  · omega
  · have hRounded := limited_mono (rounded_mono (Int.toNat_le_toNat (Int.neg_le_neg h)))
    omega

theorem lt_of_nearestValue_lt {x y : Int} (h : nearestValue x < nearestValue y) : x < y :=
  lt_of_not_ge fun hLe => h.not_ge (nearestValue_mono hLe)

theorem rounded_units {m : Nat} {e : Int} (h : m < 2 ^ 53) : rounded (units m e) = units m e :=
  rounded_of_lt h

theorem rounded_overflow {n : Nat} (h : overflow ≤ n) : overflow ≤ rounded n := by
  have hFixed : rounded overflow = overflow := by
    rw [overflow_eq]
    exact rounded_units (by decide)
  exact hFixed.ge.trans (rounded_mono h)

theorem nearestValue_of_overflow (s : Sign) {n : Nat} (h : overflow ≤ n) :
    nearestValue (s.apply n) = s.apply infinite := by
  rw [nearestValue_apply, limited_of_le (rounded_overflow h)]

theorem nearestValue_infinite (s : Sign) {z : Int} (hz : -overflow ≤ s.apply z) :
    nearestValue (s.apply infinite + z) = s.apply infinite := by
  have hInfinite : infinite = 2 * overflow := rfl
  have hMagnitude : s.apply infinite + z = s.apply ↑(infinite + s.apply z).toNat := by
    cases s <;> simp only [Sign.apply] at hz ⊢ <;> omega
  rw [hMagnitude, nearestValue_of_overflow s (by omega)]

theorem nearestValue_value {u : UnpackedFloat} (hu : Canonical u) {x : Int}
    (hx : value? u = some x) : nearestValue x = x := by
  cases u with
  | notANumber => cases hx
  | infinity s =>
    cases hx
    exact nearestValue_of_overflow s (Nat.le_mul_of_pos_left overflow (by decide))
  | zero s =>
    cases hx
    exact nearestValue_zero
  | finite s m e hm =>
    cases hx
    rw [nearestValue_apply, rounded_units hu.1.lt, limited, if_pos (units_lt_overflow hu.1 hu.2)]

theorem le_value {u : UnpackedFloat} (hu : Canonical u) {x : Int} (hx : value? u = some x) :
    -infinite ≤ x := by
  have hInfinite : infinite = 2 * overflow := rfl
  cases u with
  | notANumber => cases hx
  | infinity s =>
    cases hx
    cases s <;> simp only [Sign.apply] <;> omega
  | zero s =>
    cases hx
    omega
  | finite s m e hm =>
    cases hx
    have hBound := units_lt_overflow hu.1 hu.2
    cases s <;> simp only [Sign.apply] <;> omega

/-! ## Packed numbers -/

def packedValue? (u : UnpackedFloat) : Option Int :=
  value? (UnpackedFloat.unpack .binary64 (UnpackedFloat.pack .binary64 u))

theorem packedValue?_infinity (s : Sign) :
    packedValue? (.infinity s) = some (s.apply infinite) := by
  cases s <;> rfl

theorem packedValue?_zero (s : Sign) : packedValue? (.zero s) = some 0 := by
  cases s <;> rfl

theorem packedValue?_of_canonical {u : UnpackedFloat} (h : Canonical u) :
    packedValue? u = value? u := by
  cases u with
  | notANumber => rfl
  | infinity s => exact packedValue?_infinity s
  | zero s => exact packedValue?_zero s
  | finite s m e hm => rw [packedValue?, unpack_pack_finite h.1, if_pos h.2]

theorem packedValue?_finite (s : Sign) {m : Nat} {e : Int} {hm : 0 < m} (h : Fits m e) :
    packedValue? (.finite s m e hm) = some (s.apply (limited (units m e))) := by
  rw [packedValue?, unpack_pack_finite h]
  by_cases hHigh : e ≤ 971
  · rw [if_pos hHigh, limited, if_pos (units_lt_overflow h hHigh)]
    rfl
  · rw [if_neg hHigh, limited_of_le (overflow_le_units h (by omega))]
    rfl

theorem packedValue?_round (s : Sign) {m : Nat} (hm : 0 < m) {e : Int} (he : -1074 ≤ e) :
    packedValue? (UnpackedFloat.round .binary64 s m e) =
      some (nearestValue (s.apply (units m e))) := by
  obtain ⟨m', e', hm', hRound, hFits, hUnits⟩ := round_eq s hm he
  rw [hRound, packedValue?_finite s hFits, nearestValue_apply, hUnits]

theorem packedValue?_normalize (n : Int) {e : Int} (he : -1074 ≤ e) :
    packedValue? (UnpackedFloat.normalize .binary64 n e .positive) =
      some (nearestValue (n * 2 ^ (e + 1074).toNat)) := by
  have hUnits : ∀ m : Nat, (units m e : Int) = m * 2 ^ (e + 1074).toNat := fun m => by
    rw [units]
    push_cast
    rfl
  unfold UnpackedFloat.normalize
  split
  · rename_i hNegative
    have hn : n < 0 := compare_lt_iff_lt.mp hNegative
    have hMagnitude : ((-n).toNat : Int) = -n := Int.toNat_of_nonneg (by omega)
    rw [packedValue?_round .negative (by omega) he, Sign.apply, hUnits, hMagnitude, Int.neg_mul,
      Int.neg_neg]
  · rename_i hZero
    rw [compare_eq_iff_eq.mp hZero, Int.zero_mul, nearestValue_zero]
    exact packedValue?_zero _
  · rename_i hPositive
    have hn : 0 < n := compare_gt_iff_gt.mp hPositive
    have hMagnitude : (n.toNat : Int) = n := Int.toNat_of_nonneg hn.le
    rw [packedValue?_round .positive (by omega) he, Sign.apply, hUnits, hMagnitude]

end TypeDiagram.Number

import TypeDiagram.Proofs.Number.Monotone
import TypeDiagram.Proofs.Number.Packing

/-! # Binary64 arithmetic is monotone

Sums and differences are those of the counts, rounded; so rounding that swaps no counts swaps no
numbers.
-/

namespace TypeDiagram.Number

open Float.Model UnpackedFloat

/-! ## Sums -/

theorem apply_shiftLeft (s : Sign) (m : Nat) {low e : Int} (hLow : -1074 ≤ low) (hLe : low ≤ e) :
    s.apply ↑(m <<< (e - low).toNat) * 2 ^ (low + 1074).toNat = s.apply (units m e) := by
  have hUnits : m <<< (e - low).toNat * 2 ^ (low + 1074).toNat = units m e := by
    rw [Nat.shiftLeft_eq, Nat.mul_assoc, ← Nat.pow_add, units]
    congr 2
    omega
  rw [← hUnits]
  cases s <;> simp [Sign.apply]

theorem packedValue?_add_finite {s t : Sign} {m m' : Nat} {e e' : Int} {hm : 0 < m} {hm' : 0 < m'}
    (he : -1074 ≤ e) (he' : -1074 ≤ e') :
    packedValue? (UnpackedFloat.add .binary64 (.finite s m e hm) (.finite t m' e' hm')) =
      some (nearestValue (s.apply (units m e) + t.apply (units m' e'))) := by
  have hLow : -1074 ≤ min e e' := le_min he he'
  unfold UnpackedFloat.add decreaseExponent
  dsimp only
  rw [packedValue?_normalize _ hLow, Int.add_mul, apply_shiftLeft s m hLow (min_le_left e e'),
    apply_shiftLeft t m' hLow (min_le_right e e')]

/-- A sum is the sum of the counts, rounded; infinities of different signs have none. -/
theorem packedValue?_add {u v : UnpackedFloat} (hu : Canonical u) (hv : Canonical v) {x y : Int}
    (hx : value? u = some x) (hy : value? v = some y) :
    packedValue? (UnpackedFloat.add .binary64 u v) = some (nearestValue (x + y)) ∨
      packedValue? (UnpackedFloat.add .binary64 u v) = none ∧
        ∃ s, u = .infinity s ∧ v = .infinity (-s) := by
  have hInfinite : infinite = 2 * overflow := rfl
  have hLeft := nearestValue_value hu hx
  have hRight := nearestValue_value hv hy
  cases u with
  | notANumber => cases hx
  | infinity s =>
    cases hx
    have hSum : ∀ z : Int, -overflow ≤ s.apply z →
        packedValue? (.infinity s) = some (nearestValue (s.apply infinite + z)) := fun z hz => by
      rw [packedValue?_infinity, nearestValue_infinite s hz]
    cases v with
    | notANumber => cases hy
    | infinity t =>
      cases hy
      cases s <;> cases t
      · exact .inl (hSum _ (by simp only [Sign.apply]; omega))
      · exact .inr ⟨rfl, .negative, rfl, rfl⟩
      · exact .inr ⟨rfl, .positive, rfl, rfl⟩
      · exact .inl (hSum _ (by simp only [Sign.apply]; omega))
    | zero t =>
      cases hy
      exact .inl (hSum _ (by cases s <;> simp only [Sign.apply] <;> omega))
    | finite t m e hm =>
      cases hy
      have hBound := units_lt_overflow hv.1 hv.2
      exact .inl (hSum _ (by cases s <;> cases t <;> simp only [Sign.apply] <;> omega))
  | zero s =>
    cases hx
    rw [Int.zero_add, hRight]
    cases v with
    | notANumber => cases hy
    | infinity t => exact .inl ((packedValue?_infinity t).trans hy)
    | zero t =>
      cases hy
      exact .inl (by cases s <;> cases t <;> rfl)
    | finite t m e hm => exact .inl ((packedValue?_of_canonical hv).trans hy)
  | finite s m e hm =>
    cases hx
    have hBound := units_lt_overflow hu.1 hu.2
    cases v with
    | notANumber => cases hy
    | infinity t =>
      cases hy
      rw [Int.add_comm, nearestValue_infinite t (by
        cases s <;> cases t <;> simp only [Sign.apply] <;> omega)]
      exact .inl (packedValue?_infinity t)
    | zero t =>
      cases hy
      rw [Int.add_zero, hLeft]
      exact .inl (packedValue?_of_canonical hu)
    | finite t m' e' hm' =>
      cases hy
      exact .inl (packedValue?_add_finite hu.1.low hv.1.low)

theorem isSome_of_add {u v : UnpackedFloat}
    (h : (packedValue? (UnpackedFloat.add .binary64 u v)).isSome = true) :
    (value? u).isSome = true ∧ (value? v).isSome = true := by
  have hNone : (packedValue? .notANumber).isSome = false := rfl
  constructor
  · cases u with
    | notANumber => cases hNone.symm.trans h
    | _ => rfl
  · cases v with
    | notANumber => cases u <;> cases hNone.symm.trans h
    | _ => rfl

theorem exists_of_add {u v : UnpackedFloat} (hu : Canonical u) (hv : Canonical v) {z : Int}
    (h : packedValue? (UnpackedFloat.add .binary64 u v) = some z) :
    ∃ x y, value? u = some x ∧ value? v = some y ∧ z = nearestValue (x + y) := by
  obtain ⟨hu', hv'⟩ := isSome_of_add (Option.isSome_of_eq_some h)
  obtain ⟨x, hx⟩ := Option.isSome_iff_exists.mp hu'
  obtain ⟨y, hy⟩ := Option.isSome_iff_exists.mp hv'
  refine ⟨x, y, hx, hy, ?_⟩
  rcases packedValue?_add hu hv hx hy with hSum | ⟨hNone, _⟩
  · rw [h] at hSum
    exact Option.some.inj hSum
  · rw [h] at hNone
    cases hNone

/-! ## Differences -/

theorem apply_neg (s : Sign) (n : Int) : (-s).apply n = -s.apply n := by
  cases s
  · exact (Int.neg_neg n).symm
  · rfl

theorem canonical_neg {u : UnpackedFloat} (h : Canonical u) : Canonical u.neg := by
  cases u <;> exact h

theorem value?_neg (u : UnpackedFloat) : value? u.neg = (value? u).map (-·) := by
  cases u with
  | notANumber => rfl
  | infinity s => exact congrArg some (apply_neg s _)
  | zero s => rfl
  | finite s m e hm => exact congrArg some (apply_neg s _)

theorem sub_eq_add_neg (u v : UnpackedFloat) :
    UnpackedFloat.sub .binary64 u v = UnpackedFloat.add .binary64 u v.neg := by
  cases u <;> cases v <;> try rfl
  rename_i s m e _ t m' e' _
  change normalize .binary64 (s.apply _ - t.apply _) (min e e') .positive =
    normalize .binary64 (s.apply _ + (-t).apply _) (min e e') .positive
  rw [apply_neg, Int.sub_eq_add_neg]

/-! ## Quotients -/

theorem exists_of_div {u v : UnpackedFloat} {z : Int}
    (h : packedValue? (UnpackedFloat.div .binary64 u v) = some z) : ∃ x, value? u = some x := by
  cases u with
  | notANumber =>
    have hNone : packedValue? .notANumber = none := rfl
    cases hNone.symm.trans h
  | _ => exact ⟨_, rfl⟩

/-- With an exponent that is not the last one, the bits are those of a finite number. -/
theorem nonneg_unpack {exponent : BitVec 11} (h : exponent ≠ -1#11) (mantissa : BitVec 52) :
    ∃ x, value? (UnpackedFloat.unpack .binary64
      (packComponents .binary64 .positive exponent mantissa)) = some x ∧ 0 ≤ x := by
  unfold UnpackedFloat.unpack
  dsimp only
  rw [unpackSign_pack, if_neg (by rwa [unpackExponent_packComponents])]
  by_cases hFirst :
      unpackExponent (packComponents .binary64 .positive exponent mantissa) = 0#_
  · rw [if_pos hFirst]
    by_cases hZero :
        unpackMantissa (packComponents .binary64 .positive exponent mantissa) = 0#_
    · rw [dif_pos hZero]
      exact ⟨0, rfl, le_rfl⟩
    · rw [dif_neg hZero]
      exact ⟨_, rfl, Int.natCast_nonneg _⟩
  · rw [if_neg hFirst]
    exact ⟨_, rfl, Int.natCast_nonneg _⟩

theorem nonneg_pack {m : Nat} (hm : 0 < m) (e : Int) :
    ∃ x, packedValue? (.finite .positive m e hm) = some x ∧ 0 ≤ x := by
  unfold packedValue?
  delta UnpackedFloat.pack
  dsimp only
  split_ifs with hHigh hFull
  · exact ⟨_, packedValue?_infinity .positive, Int.natCast_nonneg _⟩
  · refine nonneg_unpack (fun hLast => hHigh ?_) _
    have hNumber := congrArg BitVec.toNat hLast
    rw [BitVec.toNat_ofNat] at hNumber
    change _ = 2047 at hNumber
    change 2 ^ 11 ≤ _
    omega
  · exact nonneg_unpack (by decide) _

theorem nonneg_round (m : Nat) (e : Int) (accuracy : Accuracy) :
    ∃ x, packedValue? (roundWithAccuracy .binary64 .positive m e accuracy) = some x ∧ 0 ≤ x := by
  unfold roundWithAccuracy
  dsimp only
  generalize shiftToTargetExponent _ _ _ _ = shifted
  by_cases hZero : shifted.1.mantissa = 0
  · rw [dif_pos hZero]
    exact ⟨0, packedValue?_zero _, le_rfl⟩
  · rw [dif_neg hZero]
    exact nonneg_pack _ _

theorem nonneg_half {u : UnpackedFloat} {x : Int} (hx : value? u = some x) (hNonneg : 0 ≤ x)
    (hm : 0 < 2 ^ 52) : ∃ y, packedValue? (UnpackedFloat.div .binary64 u
      (.finite .positive (2 ^ 52) (-51) hm)) = some y ∧ 0 ≤ y := by
  have hOverflow := overflow_pos
  have hInfinite : infinite = 2 * overflow := rfl
  cases u with
  | notANumber => cases hx
  | infinity s =>
    cases hx
    cases s with
    | negative =>
      simp only [Sign.apply] at hNonneg
      omega
    | positive => exact ⟨_, packedValue?_infinity .positive, Int.natCast_nonneg _⟩
  | zero s =>
    delta UnpackedFloat.div
    exact ⟨0, packedValue?_zero _, le_rfl⟩
  | finite s m e hm' =>
    cases hx
    have hUnits := units_pos hm' e
    cases s with
    | negative =>
      simp only [Sign.apply] at hNonneg
      omega
    | positive =>
      delta UnpackedFloat.div
      exact nonneg_round _ _ _

/-! ## Numbers -/

def count? (a : Float) : Option Int := value? a.toModel.unpack

theorem canonical_float (a : Float) : Canonical a.toModel.unpack := canonical_unpack _

theorem count?_neg (x : Float) : count? (-x) = (count? x).map (-·) := by
  change packedValue? x.toModel.unpack.neg = _
  rw [packedValue?_of_canonical (canonical_neg (canonical_float x)), value?_neg]
  rfl

open Coordinate

theorem isNumber_float_iff (a : Float) : IsNumber a ↔ ∃ x, count? a = some x :=
  (isSome_value?_iff a.toModel.unpack).symm.trans Option.isSome_iff_exists

theorem less_float_iff (a b : Float) :
    less a b = true ↔ ∃ x y, count? a = some x ∧ count? b = some y ∧ x < y := by
  rw [count?, count?, ← lt_iff (canonical_float a) (canonical_float b)]
  change decide (a < b) = true ↔ _
  rw [decide_eq_true_iff]
  change decide (a.toModel < b.toModel) = true ↔ _
  rw [decide_eq_true_iff]
  rfl

theorem nonneg_float_iff (a : Float) : Nonneg a ↔ ∃ x, count? a = some x ∧ 0 ≤ x := by
  have hZero : count? (nat 0) = some 0 := rfl
  constructor
  · rintro ⟨hNumber, hLess⟩
    obtain ⟨x, hx⟩ := (isNumber_float_iff a).mp hNumber
    refine ⟨x, hx, ?_⟩
    by_contra hNegative
    rw [← Bool.not_eq_true, less_float_iff] at hLess
    exact hLess ⟨x, 0, hx, hZero, by omega⟩
  · rintro ⟨x, hx, hNonneg⟩
    refine ⟨(isNumber_float_iff a).mpr ⟨x, hx⟩, ?_⟩
    rw [← Bool.not_eq_true, less_float_iff]
    rintro ⟨y, z, hy, hz, hLess⟩
    rw [hx] at hy
    rw [hZero] at hz
    cases hy
    cases hz
    omega

theorem count?_of_add {a b : Float} {z : Int} (h : count? (a + b) = some z) :
    ∃ x y, count? a = some x ∧ count? b = some y ∧ z = nearestValue (x + y) :=
  exists_of_add (canonical_float a) (canonical_float b) h

theorem count?_of_sub {a b : Float} {z : Int} (h : count? (a - b) = some z) :
    ∃ x y, count? a = some x ∧ count? b = some y ∧ z = nearestValue (x - y) := by
  change packedValue? (UnpackedFloat.sub .binary64 a.toModel.unpack b.toModel.unpack) = some z at h
  rw [sub_eq_add_neg] at h
  have hNeg := canonical_neg (canonical_float b)
  obtain ⟨x, y, hx, hy, rfl⟩ := exists_of_add (canonical_float a) hNeg h
  rw [value?_neg, Option.map_eq_some_iff] at hy
  obtain ⟨y, hy, rfl⟩ := hy
  exact ⟨x, y, hx, hy, by rw [← Int.sub_eq_add_neg]⟩

theorem exists_count?_add {a b e : Float} {x w y : Int} (hx : count? a = some x)
    (hw : count? b = some w) (hy : count? e = some y) (hLess : w < x) (hNonneg : 0 ≤ y) :
    ∃ z, count? (a + e) = some z := by
  rcases packedValue?_add (canonical_float a) (canonical_float e) hx hy with
    hSum | ⟨_, s, ha, he⟩
  · exact ⟨_, hSum⟩
  · have hLow := le_value (canonical_float b) hw
    rw [count?, ha] at hx
    rw [count?, he] at hy
    cases hx
    cases hy
    have hPositive := overflow_pos
    cases s
    · exact absurd hLess (by simp only [Sign.apply]; omega)
    · have hNegative : -(infinite : Int) < 0 := by
        unfold infinite
        omega
      exact absurd hNonneg hNegative.not_ge

instance : Asymmetric Float where
  less_asymm {a b} h := by
    obtain ⟨x, y, hx, hy, hLess⟩ := (less_float_iff a b).mp h
    rw [← Bool.not_eq_true, less_float_iff]
    rintro ⟨y', x', hy', hx', hLess'⟩
    rw [hx] at hx'
    rw [hy] at hy'
    cases hx'
    cases hy'
    omega

instance : Monotone Float where
  less_irrefl a := by
    rw [← Bool.not_eq_true, less_float_iff]
    rintro ⟨x, y, hx, hy, hLess⟩
    rw [hx] at hy
    cases hy
    omega
  isNumber_of_less {a b} h := by
    obtain ⟨x, y, hx, hy, _⟩ := (less_float_iff a b).mp h
    exact ⟨(isNumber_float_iff a).mpr ⟨x, hx⟩, (isNumber_float_iff b).mpr ⟨y, hy⟩⟩
  less_or_less {a b c} h hc := by
    obtain ⟨x, y, hx, hy, hLess⟩ := (less_float_iff a b).mp h
    obtain ⟨z, hz⟩ := (isNumber_float_iff c).mp hc
    rcases lt_or_ge x z with hFirst | hSecond
    · exact .inl ((less_float_iff a c).mpr ⟨x, z, hx, hz, hFirst⟩)
    · exact .inr ((less_float_iff c b).mpr ⟨z, y, hz, hy, by omega⟩)
  isNumber_of_add {a b} h := by
    obtain ⟨z, hz⟩ := (isNumber_float_iff _).mp h
    obtain ⟨x, y, hx, hy, _⟩ := count?_of_add hz
    exact ⟨(isNumber_float_iff a).mpr ⟨x, hx⟩, (isNumber_float_iff b).mpr ⟨y, hy⟩⟩
  isNumber_of_sub {a b} h := by
    obtain ⟨z, hz⟩ := (isNumber_float_iff _).mp h
    obtain ⟨x, y, hx, hy, _⟩ := count?_of_sub hz
    exact ⟨(isNumber_float_iff a).mpr ⟨x, hx⟩, (isNumber_float_iff b).mpr ⟨y, hy⟩⟩
  isNumber_of_div {a b} h := by
    obtain ⟨z, hz⟩ := (isNumber_float_iff _).mp h
    exact (isNumber_float_iff a).mpr (exists_of_div hz)
  less_of_add {a b c} h := by
    obtain ⟨x, y, hx, hy, hLess⟩ := (less_float_iff _ _).mp h
    obtain ⟨x, z, ha, hc, rfl⟩ := count?_of_add hx
    obtain ⟨y, z', hb, hc', rfl⟩ := count?_of_add hy
    rw [hc] at hc'
    cases hc'
    exact (less_float_iff a b).mpr
      ⟨x, y, ha, hb, Int.lt_of_add_lt_add_right (lt_of_nearestValue_lt hLess)⟩
  less_of_sub {a b c} h := by
    obtain ⟨x, y, hx, hy, hLess⟩ := (less_float_iff _ _).mp h
    obtain ⟨x, z, ha, hc, rfl⟩ := count?_of_sub hx
    obtain ⟨y, z', hb, hc', rfl⟩ := count?_of_sub hy
    rw [hc] at hc'
    cases hc'
    exact (less_float_iff a b).mpr
      ⟨x, y, ha, hb, Int.lt_of_sub_lt_sub_right (lt_of_nearestValue_lt hLess)⟩
  not_less_add {a e} he := by
    obtain ⟨y, hy, hNonneg⟩ := (nonneg_float_iff e).mp he
    rw [← Bool.not_eq_true, less_float_iff]
    rintro ⟨z, x, hz, hx, hLess⟩
    obtain ⟨x', y', hx', hy', rfl⟩ := count?_of_add hz
    rw [hx] at hx'
    rw [hy] at hy'
    cases hx'
    cases hy'
    have hFixed := nearestValue_value (canonical_float a) hx
    have hRounded := nearestValue_mono (x := x) (y := x + y) (by omega)
    omega
  isNumber_add {a b e} he h := by
    obtain ⟨y, hy, hNonneg⟩ := (nonneg_float_iff e).mp he
    obtain ⟨w, x, hw, hx, hLess⟩ := (less_float_iff b a).mp h
    obtain ⟨z, hz⟩ := exists_count?_add hx hw hy hLess hNonneg
    exact (isNumber_float_iff _).mpr ⟨z, hz⟩
  nonneg_zero := (nonneg_float_iff _).mpr ⟨0, rfl, le_rfl⟩
  nonneg_half {e} he := by
    obtain ⟨x, hx, hNonneg⟩ := (nonneg_float_iff e).mp he
    exact (nonneg_float_iff _).mpr (nonneg_half hx hNonneg (by decide))

end TypeDiagram.Number

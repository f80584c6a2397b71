import Mathlib.Algebra.Order.Ring.Int
import Mathlib.Tactic.SplitIfs

/-! # What a binary64 number counts as

A finite binary64 number is a whole number of the least ones there are, and infinity may count as
more of them than any finite number has. Numbers are in the order of their counts.
-/

namespace TypeDiagram.Number

open Float.Model UnpackedFloat

/-! ## Counts -/

/-- How many of the least numbers make up a number with this mantissa and exponent. -/
def units (m : Nat) (e : Int) : Nat := m * 2 ^ (e + 1074).toNat

@[irreducible]
def overflow : Nat := units (2 ^ 53) 971

/-- What infinity counts as. The sum of it and a finite number is still too much. -/
def infinite : Nat := 2 * overflow

def value? : UnpackedFloat → Option Int
  | .notANumber => none
  | .infinity s => some (s.apply infinite)
  | .zero _ => some 0
  | .finite s m e _ => some (s.apply (units m e))

structure Fits (m : Nat) (e : Int) : Prop where
  lt : m < 2 ^ 53
  low : -1074 ≤ e
  full : 2 ^ 52 ≤ m ∨ e = -1074

/-- The forms in which numbers are unpacked. -/
def Canonical : UnpackedFloat → Prop
  | .finite _ m e _ => Fits m e ∧ e ≤ 971
  | _ => True

theorem units_double (m : Nat) {e : Int} (he : -1074 ≤ e) : units (2 * m) e = units m (e + 1) := by
  have hExponent : (e + 1 + 1074).toNat = (e + 1074).toNat + 1 := by omega
  rw [units, units, hExponent, Nat.pow_succ, Nat.mul_comm 2 m, Nat.mul_assoc, Nat.mul_comm 2]

theorem units_pos {m : Nat} (hm : 0 < m) (e : Int) : 0 < units m e :=
  Nat.mul_pos hm (Nat.two_pow_pos _)

theorem overflow_pos : 0 < overflow := by
  unfold overflow
  exact units_pos (Nat.two_pow_pos 53) 971

theorem overflow_eq : overflow = units (2 ^ 52) 972 := by
  have hDouble : 2 ^ 53 = 2 * 2 ^ 52 := by decide
  have hNext : (971 : Int) + 1 = 972 := by decide
  unfold overflow
  rw [hDouble, units_double _ (by decide), hNext]

theorem units_lt_of_lt {m m' : Nat} {e e' : Int} (h : Fits m e) (h' : Fits m' e') (hLess : e < e') :
    units m e < units m' e' := by
  have hLow := h.low
  have hFull : 2 ^ 52 ≤ m' := h'.full.resolve_right (by omega)
  calc units m e
      < 2 ^ 53 * 2 ^ (e + 1074).toNat := Nat.mul_lt_mul_of_pos_right h.lt (Nat.two_pow_pos _)
    _ = 2 ^ (53 + (e + 1074).toNat) := (Nat.pow_add ..).symm
    _ ≤ 2 ^ (52 + (e' + 1074).toNat) := Nat.pow_le_pow_right (by decide) (by omega)
    _ = 2 ^ 52 * 2 ^ (e' + 1074).toNat := Nat.pow_add ..
    _ ≤ units m' e' := Nat.mul_le_mul_right _ hFull

theorem units_lt_overflow {m : Nat} {e : Int} (h : Fits m e) (hHigh : e ≤ 971) :
    units m e < overflow := by
  have hExponent : (e + 1074).toNat ≤ ((971 : Int) + 1074).toNat := by omega
  unfold overflow
  calc units m e
      < 2 ^ 53 * 2 ^ (e + 1074).toNat := Nat.mul_lt_mul_of_pos_right h.lt (Nat.two_pow_pos _)
    _ ≤ units (2 ^ 53) 971 := Nat.mul_le_mul_left _ (Nat.pow_le_pow_right (by decide) hExponent)

theorem overflow_le_units {m : Nat} {e : Int} (h : Fits m e) (hHigh : 971 < e) :
    overflow ≤ units m e := by
  have hExponent : ((972 : Int) + 1074).toNat ≤ (e + 1074).toNat := by omega
  have hFull : 2 ^ 52 ≤ m := h.full.resolve_right (by omega)
  rw [overflow_eq]
  exact Nat.mul_le_mul hFull (Nat.pow_le_pow_right (by decide) hExponent)

theorem compare_units {m m' : Nat} {e e' : Int} (h : Fits m e) (h' : Fits m' e') :
    (compare e e').then (compare m m') = compare (units m e) (units m' e') := by
  rcases lt_trichotomy e e' with hLess | rfl | hGreater
  · rw [compare_lt_iff_lt.mpr hLess, compare_lt_iff_lt.mpr (units_lt_of_lt h h' hLess)]
    rfl
  · rw [compare_eq_iff_eq.mpr rfl, Ordering.eq_then, units, units]
    simp only [Nat.compare_eq_ite_lt, Nat.mul_lt_mul_right (Nat.two_pow_pos _)]
  · rw [compare_gt_iff_gt.mpr hGreater, compare_gt_iff_gt.mpr (units_lt_of_lt h' h hGreater)]
    rfl

/-! ## Order -/

theorem some_lt {x y : Int} (h : x < y) : some Ordering.lt = some (compare x y) := by
  rw [compare_lt_iff_lt.mpr h]

theorem some_gt {x y : Int} (h : y < x) : some Ordering.gt = some (compare x y) := by
  rw [compare_gt_iff_gt.mpr h]

theorem compare_natCast (m n : Nat) : compare (m : Int) n = compare m n := by
  simp only [Nat.compare_eq_ite_lt, Int.compare_eq_ite_lt, Int.ofNat_lt]

theorem compare_neg (x y : Int) : compare (-x) (-y) = compare y x := by
  simp only [Int.compare_eq_ite_lt, Int.neg_lt_neg_iff]

theorem compare_finite {s t : Sign} {m m' : Nat} {e e' : Int} {hm : 0 < m} {hm' : 0 < m'}
    (h : Fits m e) (h' : Fits m' e') : (finite s m e hm).compare (finite t m' e' hm') =
      some (compare (s.apply (units m e)) (t.apply (units m' e'))) := by
  have hUnits := units_pos hm e
  have hUnits' := units_pos hm' e'
  have hCompare := compare_units h h'
  cases s <;> cases t
  · change some ((compare e e').then (compare m m')).swap =
      some (compare (-(units m e : Int)) (-(units m' e' : Int)))
    rw [hCompare, compare_neg, compare_natCast, ← Std.OrientedCmp.eq_swap]
  · exact some_lt (by simp only [Sign.apply]; omega)
  · exact some_gt (by simp only [Sign.apply]; omega)
  · change some ((compare e e').then (compare m m')) = some (compare (units m e : Int) (units m' e'))
    rw [hCompare, compare_natCast]

theorem compare_eq {u v : UnpackedFloat} (hu : Canonical u) (hv : Canonical v) :
    u.compare v = (value? u).bind fun x => (value? v).map fun y => compare x y := by
  have hOverflow := overflow_pos
  have hInfinite : infinite = 2 * overflow := rfl
  have hSame : ∀ x : Int, some Ordering.eq = some (compare x x) :=
    fun x => congrArg some (compare_eq_iff_eq.mpr rfl).symm
  cases u with
  | notANumber => rfl
  | infinity s =>
    cases v with
    | notANumber => cases s <;> rfl
    | infinity t =>
      cases s <;> cases t
      · exact hSame _
      · exact some_lt (by simp only [Sign.apply]; omega)
      · exact some_gt (by simp only [Sign.apply]; omega)
      · exact hSame _
    | zero t =>
      cases s
      · exact some_lt (by simp only [Sign.apply]; omega)
      · exact some_gt (by simp only [Sign.apply]; omega)
    | finite t m e hm =>
      have hBound := units_lt_overflow hv.1 hv.2
      cases s
      · exact some_lt (by cases t <;> simp only [Sign.apply] <;> omega)
      · exact some_gt (by cases t <;> simp only [Sign.apply] <;> omega)
  | zero s =>
    cases v with
    | notANumber => rfl
    | infinity t =>
      cases t
      · exact some_gt (by simp only [Sign.apply]; omega)
      · exact some_lt (by simp only [Sign.apply]; omega)
    | zero t => exact hSame 0
    | finite t m e hm =>
      have hUnits := units_pos hm e
      cases t
      · exact some_gt (by simp only [Sign.apply]; omega)
      · exact some_lt (by simp only [Sign.apply]; omega)
  | finite s m e hm =>
    have hUnits := units_pos hm e
    have hBound := units_lt_overflow hu.1 hu.2
    cases v with
    | notANumber => rfl
    | infinity t =>
      cases t
      · exact some_gt (by cases s <;> simp only [Sign.apply] <;> omega)
      · exact some_lt (by cases s <;> simp only [Sign.apply] <;> omega)
    | zero t =>
      cases s
      · exact some_lt (by simp only [Sign.apply]; omega)
      · exact some_gt (by simp only [Sign.apply]; omega)
    | finite t m' e' hm' => exact compare_finite hu.1 hv.1

theorem isSome_value?_iff (u : UnpackedFloat) : (value? u).isSome = true ↔ u.beq u = true := by
  cases u with
  | notANumber => exact ⟨nofun, nofun⟩
  | infinity s => exact ⟨fun _ => by cases s <;> rfl, fun _ => rfl⟩
  | zero s => exact ⟨fun _ => rfl, fun _ => rfl⟩
  | finite s m e hm =>
    have hSame : (compare e e).then (compare m m) = .eq := by simp
    refine ⟨fun _ => beq_iff_eq.mpr ?_, fun _ => rfl⟩
    cases s with
    | positive => exact congrArg some hSame
    | negative => exact congrArg (fun o : Ordering => some o.swap) hSame

theorem lt_iff {u v : UnpackedFloat} (hu : Canonical u) (hv : Canonical v) :
    u.lt v = true ↔ ∃ x y, value? u = some x ∧ value? v = some y ∧ x < y := by
  rw [UnpackedFloat.lt, compare_eq hu hv, beq_iff_eq]
  cases value? u with
  | none => simp
  | some x =>
    cases value? v with
    | none => simp
    | some y => simp [compare_lt_iff_lt]

/-! ## Bits -/

theorem unpackSign_pack {s : Sign} {exponent : BitVec 11} {mantissa : BitVec 52} :
    Sign.ofBitVec (unpackSign (packComponents .binary64 s exponent mantissa)) = s := by
  have hBit : unpackSign (packComponents .binary64 s exponent mantissa) = s.toBitVec := by
    ext i hi
    obtain rfl : i = 0 := Nat.lt_one_iff.mp hi
    unfold unpackSign packComponents BitVec.extractLsb
    rw [BitVec.getElem_cast, BitVec.getElem_extractLsb', BitVec.getLsbD_append,
      BitVec.getLsbD_append]
    rfl
  rw [hBit]
  cases s <;> rfl

theorem toNat_one_append (mantissa : BitVec 52) :
    (1#1 ++ mantissa).toNat = 2 ^ 52 + mantissa.toNat := by
  rw [BitVec.toNat_append, ← Nat.shiftLeft_add_eq_or_of_lt mantissa.isLt]
  rfl

theorem canonical_unpack (b : BitVec Format.binary64.numBits) :
    Canonical (UnpackedFloat.unpack .binary64 b) := by
  have hBias : (Format.binary64.exponentBias : Int) = 1023 := by decide
  have hImplicit : (Format.binary64.mantissaBitsWithoutImplicit : Int) = 52 := rfl
  have hMantissa : (unpackMantissa b).toNat < 2 ^ 52 := (unpackMantissa b).isLt
  have hExponent : (unpackExponent b).toNat < 2 ^ 11 := (unpackExponent b).isLt
  unfold UnpackedFloat.unpack
  dsimp only
  by_cases hLast : unpackExponent b = -1#_
  · rw [if_pos hLast]
    split <;> trivial
  rw [if_neg hLast]
  by_cases hFirst : unpackExponent b = 0#_
  · rw [if_pos hFirst]
    by_cases hZero : unpackMantissa b = 0#_
    · rw [dif_pos hZero]
      trivial
    · rw [dif_neg hZero]
      have hNumber : (unpackExponent b).toNat = 0 := by rw [hFirst]; rfl
      rw [hNumber, hBias]
      exact ⟨⟨by omega, by decide, .inr (by decide)⟩, by decide⟩
  · rw [if_neg hFirst]
    have hNumber : (unpackExponent b).toNat ≠ 0 := fun hSame => hFirst (BitVec.eq_of_toNat_eq hSame)
    have hNumber' : (unpackExponent b).toNat ≠ 2 ^ 11 - 1 :=
      fun hSame => hLast (BitVec.eq_of_toNat_eq hSame)
    have hFull := toNat_one_append (unpackMantissa b)
    rw [hBias, hImplicit]
    exact ⟨⟨by omega, by omega, .inl (by omega)⟩, by omega⟩

theorem unpack_full {s : Sign} {exponent : BitVec 11} {mantissa : BitVec 52}
    (hLast : exponent.toNat ≠ 2047) (hFirst : exponent.toNat ≠ 0) :
    UnpackedFloat.unpack .binary64 (packComponents .binary64 s exponent mantissa) =
      .finite s (2 ^ 52 + mantissa.toNat) (exponent.toNat - 1075)
        (Nat.add_pos_left (Nat.two_pow_pos 52) _) := by
  have hLast' : exponent ≠ -1#11 := fun hSame => hLast (congrArg BitVec.toNat hSame)
  have hFirst' : exponent ≠ 0#11 := fun hSame => hFirst (congrArg BitVec.toNat hSame)
  have hBias : (Format.binary64.exponentBias : Int) = 1023 := by decide
  unfold UnpackedFloat.unpack
  dsimp only
  rw [if_neg (by rwa [unpackExponent_packComponents]),
    if_neg (by rwa [unpackExponent_packComponents]), finite.injEq]
  refine ⟨unpackSign_pack, ?_, ?_⟩
  · rw [unpackMantissa_packComponents, toNat_one_append]
  · rw [unpackExponent_packComponents, hBias]
    rfl

theorem unpack_short {s : Sign} {mantissa : BitVec 52} (h : mantissa ≠ 0#52) :
    UnpackedFloat.unpack .binary64 (packComponents .binary64 s 0#11 mantissa) =
      .finite s mantissa.toNat (-1074)
        (Nat.pos_of_ne_zero fun hZero => h (BitVec.eq_of_toNat_eq hZero)) := by
  unfold UnpackedFloat.unpack
  dsimp only
  rw [if_neg (by rw [unpackExponent_packComponents]; decide), if_pos unpackExponent_packComponents,
    dif_neg (by rwa [unpackMantissa_packComponents]), finite.injEq]
  refine ⟨unpackSign_pack, by rw [unpackMantissa_packComponents], ?_⟩
  rw [unpackExponent_packComponents]
  rfl

theorem unpack_pack_finite {s : Sign} {m : Nat} {e : Int} {hm : 0 < m} (h : Fits m e) :
    UnpackedFloat.unpack .binary64 (UnpackedFloat.pack .binary64 (.finite s m e hm)) =
      if e ≤ 971 then .finite s m e hm else .infinity s := by
  have hLow := h.low
  have hLess := h.lt
  have hBias : (Format.binary64.exponentBias : Int) = 1023 := by decide
  have hBits : Format.binary64.mantissaBits = 53 := by decide
  have hBiased : (e + Format.binary64.exponentBias + (52 : Nat)).toNat = (e + 1075).toNat := by
    rw [hBias]
    omega
  delta UnpackedFloat.pack
  dsimp only
  rw [hBiased, hBits]
  by_cases hHigh : e ≤ 971
  · have hExponent : (BitVec.ofNat 11 (e + 1075).toNat).toNat = (e + 1075).toNat := by
      rw [BitVec.toNat_ofNat, Nat.mod_eq_of_lt (by omega)]
    rw [if_neg (by omega), if_pos hHigh]
    by_cases hFull : 2 ^ 52 ≤ m
    · have hLog : m.log2 = 52 := (Nat.log2_eq_iff hm.ne').mpr ⟨hFull, hLess⟩
      rw [hLog, if_pos rfl, unpack_full (by omega) (by omega), finite.injEq, BitVec.toNat_ofNat]
      exact ⟨rfl, by omega, by omega⟩
    · have hLog : m.log2 < 52 := (Nat.log2_lt hm.ne').mpr (by omega)
      have hMantissa : (BitVec.ofNat 52 m).toNat = m := by
        rw [BitVec.toNat_ofNat, Nat.mod_eq_of_lt (by omega)]
      rw [if_neg (by omega), unpack_short fun hZero => by
        have hNumber := congrArg BitVec.toNat hZero
        rw [hMantissa] at hNumber
        exact hm.ne' hNumber, finite.injEq]
      exact ⟨rfl, hMantissa, (h.full.resolve_left hFull).symm⟩
  · rw [if_pos (by omega), if_neg hHigh]
    cases s <;> rfl

end TypeDiagram.Number

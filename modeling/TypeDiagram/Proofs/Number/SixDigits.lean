import Mathlib
import TypeDiagram.Proofs.Number.Interval
import TypeDiagram.Proofs.Number.Significant

/-! # Numbers of six significant digits

A number is written with six significant digits. What is read from its text is the number nearest to
these digits, and this is the number itself if and only if it is nearest to any decimal of six
digits at all.

That a number is known by its decoded form is a lemma of the library on floats, which is part of no
smaller import than the whole of it.
-/

namespace TypeDiagram.Number

open Float.Model UnpackedFloat

/-! ## Decoded numbers -/

def signOf (negative : Bool) : Sign := if negative then .negative else .positive

theorem eq_of_unpack_eq {x y : Float} (h : x.toModel.unpack = y.toModel.unpack) : x = y := by
  have hBits : x.toModel.toBits.toBitVec = y.toModel.toBits.toBitVec :=
    (unpack_inj_of_valid x.toModel.valid y.toModel.valid).mp h
  obtain ⟨⟨⟨_⟩, _⟩⟩ := x
  obtain ⟨⟨⟨_⟩, _⟩⟩ := y
  cases hBits
  rfl

theorem ofBitVec_unpackSign (x : Float) :
    Sign.ofBitVec (@unpackSign .binary64 x.toModel.toBits.toBitVec) =
      signOf (x.toBits.toNat / Nat.pow 2 63 == 1) := by
  have hBits : x.toBits.toNat = x.toModel.toBits.toBitVec.toNat := rfl
  have hLess : x.toModel.toBits.toBitVec.toNat < 2 ^ 64 := x.toModel.toBits.toBitVec.isLt
  have hSign := toNat_unpackSign x.toModel.toBits.toBitVec
  unfold Sign.ofBitVec signOf
  rw [hBits, Nat.pow_eq]
  by_cases hOne : x.toModel.toBits.toBitVec.toNat / 2 ^ 63 = 1
  · have hSome : @unpackSign .binary64 x.toModel.toBits.toBitVec ≠ 0#1 := fun hNone => by
      rw [hNone, hOne] at hSign
      cases hSign
    rw [if_neg hSome, if_pos (beq_iff_eq.mpr hOne)]
  · have hZero : x.toModel.toBits.toBitVec.toNat / 2 ^ 63 = 0 := by omega
    have hNone : @unpackSign .binary64 x.toModel.toBits.toBitVec = 0#1 :=
      BitVec.eq_of_toNat_eq (by rw [hSign, hZero]; rfl)
    rw [if_pos hNone, if_neg (by simpa using hOne)]

theorem exists_components (x : Float) : ∃ (exponent : BitVec 11) (mantissa : BitVec 52),
    exponent.toNat = x.toBits.toNat / 2 ^ 52 % 2 ^ 11 ∧ mantissa.toNat = x.toBits.toNat % 2 ^ 52 ∧
      x.toModel.unpack = UnpackedFloat.unpack .binary64 (packComponents .binary64
        (signOf (x.toBits.toNat / 2 ^ 63 == 1)) exponent mantissa) := by
  refine ⟨@unpackExponent .binary64 x.toModel.toBits.toBitVec,
    @unpackMantissa .binary64 x.toModel.toBits.toBitVec, toNat_unpackExponent _,
    toNat_unpackMantissa _, ?_⟩
  have hSign := ofBitVec_unpackSign x
  rw [Nat.pow_eq] at hSign
  rw [← hSign, packComponents_unpackSign_unpackExponent_unpackMantissa]
  rfl

theorem unpack_of_ofFloat {x : Float} {negative : Bool} {m : Nat} {e : Int}
    (h : Binary.ofFloat x = .finite negative m e) :
    if hm : 0 < m then x.toModel.unpack = .finite (signOf negative) m e hm
    else x.toModel.unpack = .zero (signOf negative) := by
  obtain ⟨exponent, mantissa, hExponent, hMantissa, hUnpack⟩ := exists_components x
  unfold Binary.ofFloat at h
  simp only [Nat.pow_eq, ← hExponent, ← hMantissa] at h
  rw [hUnpack]
  split at h
  · split at h <;> cases h
  · rename_i hLast
    have hLast : exponent.toNat ≠ 2047 := by simpa using hLast
    split at h
    · rename_i hFirst
      have hFirst : exponent = 0#11 := BitVec.eq_of_toNat_eq (beq_iff_eq.mp hFirst)
      injection h with hNegative hDigits hLow
      subst hFirst hNegative hDigits hLow
      split
      · rename_i hm
        rw [unpack_short fun hZero => hm.ne' (by rw [hZero]; rfl)]
      · rename_i hm
        have hZero : mantissa = 0#52 := BitVec.eq_of_toNat_eq (by simpa using hm)
        rw [hZero]
        exact unpack_packedZero
    · rename_i hFirst
      have hFirst : exponent.toNat ≠ 0 := by simpa using hFirst
      injection h with hNegative hDigits hHigh
      subst hNegative hDigits hHigh
      rw [dif_pos (Nat.add_pos_left (Nat.two_pow_pos 52) _), unpack_full hLast hFirst]

theorem count?_of_unpack {x : Float} {s : Sign} {m : Nat} {e : Int} {hm : 0 < m}
    (h : x.toModel.unpack = .finite s m e hm) : count? x = some (s.apply (units m e)) := by
  rw [count?, h]
  rfl

theorem unpack_of_count? {x : Float} {s : Sign} {m : Nat} {e : Int} (hm : 0 < m) (hFits : Fits m e)
    (hHigh : e ≤ 971) (h : count? x = some (s.apply (units m e))) :
    x.toModel.unpack = .finite s m e hm := by
  obtain ⟨m', e', hm', hUnpack, hFits', hUnits⟩ :=
    exists_finite_of_count? (units_pos hm e) (units_lt_overflow hFits hHigh) h
  have hLow := hFits.low
  have hLow' := hFits'.low
  obtain ⟨rfl, hExponent⟩ := eq_of_mul_pow_eq hFits'.lt hFits.lt
    (hFits'.full.imp_right fun hLowest => by omega) (hFits.full.imp_right fun hLowest => by omega)
    hUnits
  obtain rfl : e' = e := by omega
  exact hUnpack

/-! ## Numerals -/

namespace Numeral

def leading (digits : Nat) (exponent : Int) : Int := (Nat.toDigits 10 digits).length + exponent

def size (digits : Nat) (exponent : Int) : Float :=
  if digits == 0 || leading digits exponent < -exponentLimit then 0.0
  else if exponentLimit < leading digits exponent then 1.0 / 0.0
  else Float.ofScientific digits (exponent < 0) exponent.natAbs

theorem toFloat_finite (negative : Bool) (digits : Nat) (exponent : Int) :
    (finite negative digits exponent).toFloat =
      if negative then -size digits exponent else size digits exponent := rfl

theorem count?_toFloat_finite {negative : Bool} {digits : Nat} {exponent c : Int}
    (h : count? (size digits exponent) = some c) :
    count? (finite negative digits exponent).toFloat = some ((signOf negative).apply c) := by
  rw [toFloat_finite]
  cases negative with
  | true =>
    rw [if_pos rfl, count?_neg, h]
    rfl
  | false => exact h

theorem value_bounds {d : Decimal} (hd : 0 < d.digits) :
    10 ^ (leading d.digits d.exponent - 1) ≤ d.value ∧
      d.value < 10 ^ leading d.digits d.exponent := by
  obtain ⟨hLow, hHigh⟩ := Ratio.toDigits_bounds hd
  have hLength := Nat.length_toDigits_pos (b := 10) (n := d.digits)
  unfold leading Decimal.value
  generalize (Nat.toDigits 10 d.digits).length = l at *
  have hFirst : (l : Int) + d.exponent - 1 = (l - 1 : Nat) + d.exponent := by omega
  rw [hFirst, zpow_add₀ (by norm_num), zpow_add₀ (by norm_num), zpow_natCast, zpow_natCast]
  constructor
  · refine mul_le_mul_of_nonneg_right ?_ (ten_zpow_pos _).le
    exact_mod_cast hLow
  · refine mul_lt_mul_of_pos_right ?_ (ten_zpow_pos _)
    exact_mod_cast hHigh

theorem count?_size {d : Decimal} (hd : 0 < d.digits) (he : d.exponent.natAbs ≤ 1000)
    (hLow : -400 ≤ leading d.digits d.exponent) (hHigh : leading d.digits d.exponent ≤ 400) :
    count? (size d.digits d.exponent) = some ((nearestCount d.value : Nat) : Int) := by
  have hZero : (d.digits == 0) = false := by simpa using hd.ne'
  rw [size, exponentLimit, hZero, Bool.false_or, if_neg (by simpa using hLow),
    if_neg (by simpa using hHigh)]
  exact count?_ofScientific hd he

/-- A numeral of six digits that stands for a finite number other than zero is within the limits. -/
theorem limits_of_toFloat {negative : Bool} {digits : Nat} {exponent : Int}
    (hDigits : digits < 10 ^ 6) {s : Sign} {m : Nat} {e : Int} (hm : 0 < m) (hFits : Fits m e)
    (hHigh : e ≤ 971)
    (h : count? (finite negative digits exponent).toFloat = some (s.apply (units m e))) :
    0 < digits ∧ exponent.natAbs ≤ 1000 ∧ -400 ≤ leading digits exponent ∧
      leading digits exponent ≤ 400 := by
  have hUnits := units_pos hm e
  have hOverflow := units_lt_overflow hFits hHigh
  have hInfinite : Number.infinite = 2 * overflow := rfl
  have hOther {c : Int} (hSize : count? (size digits exponent) = some c) :
      c ≠ 0 ∧ c ≠ Number.infinite := by
    rw [count?_toFloat_finite hSize, Option.some_inj] at h
    unfold Sign.apply at h
    constructor <;> rintro rfl <;> split at h <;> split at h <;> omega
  have hZero : count? (0.0 : Float) = some 0 := by decide +kernel
  have hLimit : count? (1.0 / 0.0 : Float) = some (Number.infinite : Int) := by decide +kernel
  unfold size at hOther
  split at hOther
  · exact absurd rfl (hOther hZero).1
  · rename_i hSome
    split at hOther
    · exact absurd rfl (hOther hLimit).2
    · rename_i hMost
      simp only [Bool.or_eq_true, beq_iff_eq, decide_eq_true_iff, not_or, not_lt] at hSome hMost
      have hPos : 0 < digits := Nat.pos_of_ne_zero hSome.1
      have hLength : (Nat.toDigits 10 digits).length ≤ 6 :=
        (Nat.length_toDigits_le_iff (by decide) (by decide)).mpr hDigits
      have hLeast := hSome.2
      unfold exponentLimit at hLeast hMost
      refine ⟨hPos, ?_, hLeast, hMost⟩
      unfold leading at hLeast hMost
      omega

end Numeral

/-! ## Rounding to six digits -/

section Rounding

variable {m : Nat} {e : Int} (hm : 0 < m) (hFits : Fits m e)

/-- The last of six digits. -/
def lastPlace (m : Nat) (e : Int) : Int := (Decimal.round 6 (Ratio.ofBinary m e)).exponent

theorem exists_sixDigits_eq_mul (m : Nat) (e : Int) :
    ∃ n : Nat, (sixDigits m e).value = n * 10 ^ lastPlace m e :=
  ⟨_, (value_sixDigits m e).trans (Decimal.value_round 6 _)⟩

include hm hFits in
theorem lastPlace_spec : (10 : Rat) ^ (lastPlace m e + 5) ≤ m * 2 ^ e ∧
    (m : Rat) * 2 ^ e < 10 ^ (lastPlace m e + 6) := by
  obtain ⟨hLow, hHigh⟩ := Ratio.leadingExponent_spec (Ratio.den_ofBinary_pos m e)
    (reach_ofBinary hm hFits.low)
  rw [Ratio.value_ofBinary] at hLow hHigh
  have hLeading : (Ratio.ofBinary m e).leadingExponent = lastPlace m e + 5 := by
    rw [lastPlace, Decimal.exponent_round]
    omega
  rw [hLeading] at hLow hHigh
  exact ⟨hLow, by rwa [add_assoc] at hHigh⟩

include hm hFits in
/-- Between the decimal of six digits nearest to a number and one that is greater than the number
there is a whole unit of the last place. -/
theorem last_place_le_sub {d : Decimal} (hd : d.digits < 10 ^ 6) (hAbove : m * 2 ^ e < d.value)
    (hBelow : (sixDigits m e).value < m * 2 ^ e) :
    10 ^ lastPlace m e ≤ d.value - (sixDigits m e).value := by
  obtain ⟨k, hSix⟩ := exists_sixDigits_eq_mul m e
  obtain ⟨n, hn⟩ := Decimal.exists_value_eq_mul (e := lastPlace m e) (d := d) (by
    refine Decimal.exponent_round_le (by decide) hd (le_trans ?_ hAbove.le)
    rw [← Ratio.value_ofBinary]
    exact (Ratio.leadingExponent_spec (Ratio.den_ofBinary_pos m e)
      (reach_ofBinary hm hFits.low)).1)
  have hOrder := hBelow.trans hAbove
  rw [hn, hSix] at hOrder ⊢
  have hLess : (k : Rat) < n := lt_of_mul_lt_mul_right hOrder (ten_zpow_pos (lastPlace m e)).le
  have hNext : (k : Rat) + 1 ≤ n := by exact_mod_cast hLess
  calc (10 : Rat) ^ lastPlace m e = 1 * 10 ^ lastPlace m e := (one_mul _).symm
    _ ≤ (n - k) * 10 ^ lastPlace m e :=
        mul_le_mul_of_nonneg_right (by linarith) (ten_zpow_pos _).le
    _ = n * 10 ^ lastPlace m e - k * 10 ^ lastPlace m e := sub_mul _ _ _

include hm hFits in
/-- If any decimal of six digits is rounded to a number, then so is the one nearest to it. -/
theorem roundsTo_sixDigits {d : Decimal} (hd : d.digits < 10 ^ 6) (h : RoundsTo d.value m e) :
    RoundsTo (sixDigits m e).value m e := by
  have hNearest := abs_sixDigits_sub_le hm hFits.low hd
  constructor
  · linarith [h.within]
  · intro hTie
    exact h.tie (le_antisymm h.within (by linarith))
  · intro hPower hLow hBelow
    rw [abs_of_neg (sub_neg.mpr hBelow), neg_sub] at hNearest
    rcases lt_trichotomy d.value (m * 2 ^ e) with hLess | hSame | hAbove
    · rw [abs_of_neg (sub_neg.mpr hLess), neg_sub] at hNearest
      linarith [h.below hPower hLow hLess]
    · rw [hSame, sub_self, abs_zero] at hNearest
      linarith
    · -- The decimals on both sides would be nearer to each other than decimals of six digits are.
      exfalso
      have hGap := last_place_le_sub hm hFits hd hAbove hBelow
      have hWithin := h.within
      rw [abs_of_pos (sub_pos.mpr hAbove)] at hNearest hWithin
      obtain ⟨_, hHigh⟩ := lastPlace_spec hm hFits
      have hMantissa : (m : Rat) = 2 ^ 52 := by rw [hPower]; norm_num
      rw [hMantissa, zpow_add₀ (by norm_num)] at hHigh
      have hUnit : (0 : Rat) < 2 ^ e := zpow_pos two_pos e
      norm_num at hHigh
      linarith

end Rounding

/-! ## The number that is read -/

def toSixDigits (x : Float) : Float :=
  match Binary.ofFloat x with
  | .finite negative m e =>
    if m = 0 then x
    else (Numeral.finite negative (sixDigits m e).digits (sixDigits m e).exponent).toFloat
  | _ => x

/-- The number is the nearest one to some decimal of at most six digits. -/
def HasSixDigits (x : Float) : Prop :=
  ∃ negative digits exponent, digits < 10 ^ 6 ∧
    (Numeral.finite negative digits exponent).toFloat = x

def IsFinite (x : Float) : Prop := ∃ negative m e, Binary.ofFloat x = .finite negative m e

theorem eq_of_count?_eq {x y : Float} {c : Int} (hc : c ≠ 0) (hx : count? x = some c)
    (hy : count? y = some c) : x = y := by
  have hInfinite : infinite = 2 * overflow := rfl
  have hCanonical := canonical_float x
  have hCanonical' := canonical_float y
  apply eq_of_unpack_eq
  have hx' := hx
  have hy' := hy
  unfold count? at hx' hy'
  cases hUnpack : x.toModel.unpack with
  | notANumber =>
    rw [hUnpack] at hx'
    cases hx'
  | zero s =>
    rw [hUnpack] at hx'
    exact absurd (Option.some.inj hx').symm hc
  | finite s m e hm =>
    rw [hUnpack] at hx' hCanonical
    rw [← Option.some.inj hx'] at hy
    exact (unpack_of_count? hm hCanonical.1 hCanonical.2 hy).symm
  | infinity s =>
    rw [hUnpack] at hx'
    have hSame := (Option.some.inj hx').symm
    cases hUnpack' : y.toModel.unpack with
    | notANumber =>
      rw [hUnpack'] at hy'
      cases hy'
    | zero t =>
      rw [hUnpack'] at hy'
      exact absurd (Option.some.inj hy').symm hc
    | finite t m e hm =>
      rw [hUnpack'] at hy' hCanonical'
      have hUnits := units_lt_overflow hCanonical'.1 hCanonical'.2
      have hOther := Option.some.inj hy'
      rw [hSame] at hOther
      cases s <;> cases t <;> simp only [Sign.apply] at hOther <;> omega
    | infinity t =>
      rw [hUnpack'] at hy'
      have hOther := Option.some.inj hy'
      rw [hSame] at hOther
      have hPos := overflow_pos
      cases s <;> cases t <;> simp only [Sign.apply] at hOther <;> first | rfl | omega

section Reading

variable {m : Nat} {e : Int} (hm : 0 < m) (hFits : Fits m e)

theorem two_zpow_le (k : Nat) : (2 : Rat) ^ (3 * k : Nat) ≤ 10 ^ k := by
  rw [pow_mul]
  exact pow_le_pow_left₀ (by norm_num) (by norm_num) k

include hm hFits in
theorem lastPlace_bounds (hHigh : e ≤ 971) : -405 ≤ lastPlace m e ∧ lastPlace m e ≤ 340 := by
  obtain ⟨hLeast, hMost⟩ := lastPlace_spec hm hFits
  have hLow := hFits.low
  have hMantissa : (1 : Rat) ≤ m := by exact_mod_cast hm
  have hMantissa' : (m : Rat) < 2 ^ (53 : Int) := by exact_mod_cast hFits.lt
  have hTen (k : Nat) : (2 : Rat) ^ (3 * k : Int) ≤ 10 ^ (k : Int) := by
    exact_mod_cast two_zpow_le k
  constructor
  · by_contra hSmall
    have hBelow : (m : Rat) * 2 ^ e < 10 ^ (-400 : Int) :=
      hMost.trans_le (zpow_le_zpow_right₀ (by norm_num) (by omega))
    have hAbove : (2 : Rat) ^ (-1200 : Int) ≤ m * 2 ^ e :=
      (zpow_le_zpow_right₀ one_le_two (by omega)).trans
        (le_mul_of_one_le_left (zpow_pos two_pos e).le hMantissa)
    have hInverse : (10 : Rat) ^ (-400 : Int) ≤ 2 ^ (-1200 : Int) := by
      rw [zpow_neg, zpow_neg]
      exact inv_anti₀ (zpow_pos two_pos _) (hTen 400)
    linarith
  · by_contra hGreat
    have hAbove : (10 : Rat) ^ (342 : Int) ≤ m * 2 ^ e :=
      (zpow_le_zpow_right₀ (by norm_num) (by omega)).trans hLeast
    have hBelow : (m : Rat) * 2 ^ e < 2 ^ (1026 : Int) := by
      calc (m : Rat) * 2 ^ e < 2 ^ (53 : Int) * 2 ^ e :=
            mul_lt_mul_of_pos_right hMantissa' (zpow_pos two_pos e)
        _ = 2 ^ (53 + e) := (zpow_add₀ two_ne_zero _ _).symm
        _ ≤ 2 ^ (1026 : Int) := zpow_le_zpow_right₀ one_le_two (by omega)
    exact absurd (hBelow.trans_le (hTen 342)) hAbove.not_gt

include hm hFits in
theorem sixDigits_bounds : 10 ^ (lastPlace m e + 5) ≤ (sixDigits m e).value ∧
    (sixDigits m e).value ≤ 10 ^ (lastPlace m e + 6) := by
  have hDen := Ratio.den_ofBinary_pos m e
  have hReach := reach_ofBinary hm hFits.low
  have hLeading : (Ratio.ofBinary m e).leadingExponent = lastPlace m e + 5 := by
    rw [lastPlace, Decimal.exponent_round]
    omega
  rw [value_sixDigits, ← hLeading]
  refine ⟨Decimal.ten_zpow_le_value_round 6 hDen hReach, ?_⟩
  have hDigits := Decimal.digits_round_le (by decide : 0 < 6) hDen hReach
  calc (Decimal.round 6 (Ratio.ofBinary m e)).value
      ≤ 10 ^ 6 * 10 ^ lastPlace m e := by
        refine mul_le_mul_of_nonneg_right ?_ (ten_zpow_pos _).le
        exact_mod_cast hDigits
    _ = 10 ^ (lastPlace m e + 6) := by
        rw [add_comm, zpow_add₀ (by norm_num)]
        rfl

include hm hFits in
theorem nearestCount_sixDigits_ne_zero : nearestCount (sixDigits m e).value ≠ 0 := by
  obtain ⟨hLeast, _⟩ := lastPlace_spec hm hFits
  obtain ⟨hLow, _⟩ := sixDigits_bounds hm hFits
  have hPos := ten_zpow_pos (lastPlace m e)
  have hSix : 0 < (sixDigits m e).value := (ten_zpow_pos _).trans_le hLow
  have hClose : |(sixDigits m e).value - m * 2 ^ e| ≤ 1 / 2 * 10 ^ lastPlace m e := by
    rw [value_sixDigits, ← Ratio.value_ofBinary]
    exact Decimal.abs_round_sub_le_half 6 (Ratio.den_ofBinary_pos m e)
  have hNumber : (2 : Rat) ^ (-1074 : Int) ≤ m * 2 ^ e :=
    (zpow_le_zpow_right₀ one_le_two hFits.low).trans
      (le_mul_of_one_le_left (zpow_pos two_pos e).le (by exact_mod_cast hm))
  have hFive : (10 : Rat) ^ (lastPlace m e + 5) = 10 ^ lastPlace m e * 100000 := by
    rw [zpow_add₀ (by norm_num)]
    norm_num
  intro hZero
  have hUnits : nearestCount (sixDigits m e).value = units 0 (-1074) := by
    rw [hZero, units, Nat.zero_mul]
  have hRounds := (nearestCount_eq_iff hSix.le ⟨by decide, le_rfl, .inr rfl⟩ (by decide)).mp hUnits
  have hWithin := hRounds.within
  rw [Nat.cast_zero, zero_mul, sub_zero, abs_of_pos hSix] at hWithin
  rw [hFive] at hLeast
  linarith [(abs_le.mp hClose).1]

include hm hFits in
/-- Every way to write the six digits of a number is within the limits of numerals. -/
theorem limits_of_sixDigits (hHigh : e ≤ 971) {d : Decimal}
    (hd : d ∈ [sixDigits m e, (sixDigits m e).spread]) : d.value = (sixDigits m e).value ∧
      0 < d.digits ∧ d.exponent.natAbs ≤ 1000 ∧ -400 ≤ Numeral.leading d.digits d.exponent ∧
      Numeral.leading d.digits d.exponent ≤ 400 := by
  obtain ⟨hLast, hLast'⟩ := lastPlace_bounds hm hFits hHigh
  obtain ⟨hLow, hMost⟩ := sixDigits_bounds hm hFits
  have hForm : d.value = (sixDigits m e).value ∧ (d.exponent = 0 ∨ d.digits < 10 ^ 6) := by
    have hShort := digits_sixDigits_lt hm hFits.low
    rcases List.mem_pair.mp hd with rfl | rfl
    · exact ⟨rfl, .inr hShort⟩
    · refine ⟨Decimal.value_spread _, ?_⟩
      unfold Decimal.spread
      split
      · exact .inl rfl
      · exact .inr hShort
  obtain ⟨hValue, hShort⟩ := hForm
  rw [← hValue] at hLow hMost
  have hPos : 0 < d.digits := by
    rw [Nat.pos_iff_ne_zero]
    intro hZero
    rw [Decimal.value, hZero, Nat.cast_zero, zero_mul] at hLow
    exact hLow.not_gt (ten_zpow_pos _)
  have hOrder {i j : Int} (h : (10 : Rat) ^ i < 10 ^ j) : i < j :=
    (zpow_lt_zpow_iff_right₀ (by norm_num)).mp h
  obtain ⟨hFirst, hNext⟩ := Numeral.value_bounds hPos
  have hAbove := hOrder (hLow.trans_lt hNext)
  have hBelow : Numeral.leading d.digits d.exponent - 1 ≤ lastPlace m e + 6 :=
    (zpow_le_zpow_iff_right₀ (by norm_num)).mp (hFirst.trans hMost)
  refine ⟨hValue, hPos, ?_, by omega, by omega⟩
  rcases hShort with hNone | hShort
  · rw [hNone]
    decide
  · have hLength : (Nat.toDigits 10 d.digits).length ≤ 6 :=
      (Nat.length_toDigits_le_iff (by decide) (by decide)).mpr hShort
    unfold Numeral.leading at hAbove hBelow
    omega

include hm hFits in
theorem count?_sixDigits (hHigh : e ≤ 971) (negative : Bool) {d : Decimal}
    (hd : d ∈ [sixDigits m e, (sixDigits m e).spread]) :
    count? (Numeral.finite negative d.digits d.exponent).toFloat =
      some ((signOf negative).apply (nearestCount (sixDigits m e).value)) := by
  obtain ⟨hValue, hPos, hExponent, hLow, hMost⟩ := limits_of_sixDigits hm hFits hHigh hd
  rw [← hValue]
  exact Numeral.count?_toFloat_finite (Numeral.count?_size hPos hExponent hLow hMost)

end Reading

theorem toFloat_zero {x : Float} {negative : Bool}
    (h : x.toModel.unpack = .zero (signOf negative)) : (Numeral.finite negative 0 0).toFloat = x := by
  apply eq_of_unpack_eq
  rw [h]
  cases negative <;> rfl

theorem toFloat_of_general {x : Float} (hx : IsFinite x) :
    ∃ n, Numeral.read? (general x) = some n ∧ n.toFloat = toSixDigits x := by
  obtain ⟨negative, m, e, hx⟩ := hx
  have hUnpack := unpack_of_ofFloat hx
  unfold toSixDigits
  rw [hx]
  dsimp only
  split at hUnpack
  · rename_i hm
    have hCanonical := canonical_float x
    rw [hUnpack] at hCanonical
    obtain ⟨hFits, hHigh⟩ := hCanonical
    obtain ⟨d, hd, hRead⟩ := read?_general hx hm
    refine ⟨_, hRead, ?_⟩
    rw [if_neg hm.ne']
    have hCount : ((nearestCount (sixDigits m e).value : Nat) : Int) ≠ 0 := by
      exact_mod_cast nearestCount_sixDigits_ne_zero hm hFits
    have hSign : (signOf negative).apply (nearestCount (sixDigits m e).value) ≠ 0 := by
      cases negative <;> simpa [signOf, Sign.apply] using hCount
    exact eq_of_count?_eq hSign (count?_sixDigits hm hFits hHigh negative hd)
      (count?_sixDigits hm hFits hHigh negative (.head _))
  · rename_i hm
    obtain rfl : m = 0 := by omega
    exact ⟨_, read?_general_zero hx, by rw [if_pos rfl, toFloat_zero hUnpack]⟩

/-- A finite number has six digits if and only if rounding to six digits leaves it as it is. -/
theorem toSixDigits_eq_iff {x : Float} (hx : IsFinite x) : toSixDigits x = x ↔ HasSixDigits x := by
  obtain ⟨negative, m, e, hx⟩ := hx
  have hUnpack := unpack_of_ofFloat hx
  unfold toSixDigits
  rw [hx]
  dsimp only
  split at hUnpack
  · rename_i hm
    have hCanonical := canonical_float x
    rw [hUnpack] at hCanonical
    obtain ⟨hFits, hHigh⟩ := hCanonical
    rw [if_neg hm.ne']
    constructor
    · exact fun h => ⟨negative, _, _, digits_sixDigits_lt hm hFits.low, h⟩
    · rintro ⟨negative', digits, exponent, hDigits, hNearest⟩
      have hCount := count?_of_unpack hUnpack
      rw [← hNearest] at hCount
      obtain ⟨hPos, hExponent, hLow, hMost⟩ :=
        Numeral.limits_of_toFloat hDigits hm hFits hHigh hCount
      have hSize := Numeral.count?_size (d := ⟨digits, exponent⟩) hPos hExponent hLow hMost
      have hUnits := units_pos hm e
      obtain ⟨rfl, hSame⟩ : negative' = negative ∧
          nearestCount (Decimal.value ⟨digits, exponent⟩) = units m e := by
        rw [Numeral.count?_toFloat_finite hSize, Option.some_inj] at hCount
        cases negative' <;> cases negative <;> simp [signOf, Sign.apply] at hCount ⊢ <;> omega
      have hRounds := (nearestCount_eq_iff (Decimal.value_nonneg _) hFits hHigh).mp hSame
      have hSix := roundsTo_sixDigits hm hFits hDigits hRounds
      have hRead := count?_sixDigits hm hFits hHigh negative' (.head _)
      rw [(nearestCount_eq_iff (Decimal.value_nonneg _) hFits hHigh).mpr hSix] at hRead
      have hSign : (signOf negative').apply (units m e) ≠ 0 := by
        cases negative' <;> simp [signOf, Sign.apply] <;> omega
      exact eq_of_count?_eq hSign hRead (count?_of_unpack hUnpack)
  · rename_i hm
    obtain rfl : m = 0 := by omega
    rw [if_pos rfl]
    exact ⟨fun _ => ⟨negative, 0, 0, by decide, toFloat_zero hUnpack⟩, fun _ => rfl⟩

end TypeDiagram.Number

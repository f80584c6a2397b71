import Mathlib.Algebra.Order.Field.Rat
import Mathlib.Tactic.Positivity
import TypeDiagram.Number.Decimal
import TypeDiagram.Number.Numeral

/-! # Numbers that are not negative read back as such

The text that a binary64 number is written as has a sign in front of its digits only if the sign bit
is set. A number that is not below zero has that bit only if it is a zero. So whatever the text
reads back as is not below zero either, though digits were lost on the way.
-/

namespace TypeDiagram.Number

open Float.Model

/-! ## Reading -/

def BeginsWithDigit (cs : List Char) : Prop := ∃ c rest, cs = c :: rest ∧ c.isDigit = true

theorem isDigit_iff (c : Char) : c.isDigit = true ↔ 0x30 ≤ c.toNat ∧ c.toNat ≤ 0x39 := by
  unfold Char.isDigit
  rw [Bool.and_eq_true, decide_eq_true_iff, decide_eq_true_iff]
  exact Iff.rfl

theorem beginsWithDigit_append {cs : List Char} (hSome : cs ≠ [])
    (hAll : ∀ c ∈ cs, c.isDigit = true) (more : List Char) : BeginsWithDigit (cs ++ more) := by
  cases cs with
  | nil => exact absurd rfl hSome
  | cons c cs => exact ⟨c, cs ++ more, rfl, hAll c List.mem_cons_self⟩

theorem trimWhere_cons {blank : Char → Bool} {c : Char} (h : blank c = false) (cs : List Char) :
    ∃ rest, Text.trimWhere blank (c :: cs) = c :: rest := by
  unfold Text.trimWhere
  rw [List.dropWhile_cons_of_neg (by rw [h]; exact Bool.false_ne_true), List.reverse_cons,
    List.dropWhile_append]
  split
  · rw [List.dropWhile_cons_of_neg (by rw [h]; exact Bool.false_ne_true)]
    exact ⟨[], rfl⟩
  · rw [List.reverse_append]
    exact ⟨_, rfl⟩

namespace Numeral

theorem isMargin_of_isDigit {c : Char} (h : c.isDigit = true) : isMargin c = false := by
  obtain ⟨hLow, hHigh⟩ := (isDigit_iff c).mp h
  unfold isMargin Text.isBlank
  simp only [Bool.and_eq_false_iff, Bool.or_eq_false_iff, decide_eq_false_iff_not,
    beq_eq_false_iff_ne]
  left
  omega

theorem digitValue?_of_isDigit {c : Char} (h : c.isDigit = true) :
    Text.digitValue? c = some (c.toNat - 0x30) := by
  obtain ⟨hLow, hHigh⟩ := (isDigit_iff c).mp h
  unfold Text.digitValue? Text.digitZeros
  rw [List.find?_cons_of_pos]
  · rfl
  · rw [Bool.and_eq_true, decide_eq_true_iff, decide_eq_true_iff]
    omega

theorem asciiDigits_cons {c : Char} (h : c.isDigit = true) (cs : List Char) :
    asciiDigits (c :: cs) = c :: asciiDigits cs := by
  obtain ⟨hLow, _⟩ := (isDigit_iff c).mp h
  have hSame : Char.ofNat ('0'.toNat + (c.toNat - 0x30)) = c := by
    rw [show '0'.toNat + (c.toNat - 0x30) = c.toNat from Nat.add_sub_cancel' hLow, Char.ofNat_toNat]
  unfold asciiDigits
  rw [List.map_cons, digitValue?_of_isDigit h]
  exact congrArg (· :: _) hSame

theorem joinDigits?_cons {c : Char} (h : c.isDigit = true) {cs out : List Char}
    (hJoin : joinDigits? ' ' (c :: cs) = some out) : ∃ rest, out = c :: rest := by
  have hMark : (c == '_') = false := beq_eq_false_iff_ne.mpr fun hSame => by
    rw [hSame] at h
    cases h
  rw [joinDigits?, hMark] at hJoin
  obtain ⟨rest, _, hOut⟩ := Option.map_eq_some_iff.mp hJoin
  exact ⟨rest, hOut.symm⟩

theorem splitSign_cons {c : Char} (h : c.isDigit = true) (cs : List Char) :
    splitSign (c :: cs) = (false, c :: cs) := by
  unfold splitSign
  split
  · rename_i hSame
    rw [(List.cons.inj hSame).1] at h
    cases h
  · rename_i hSame
    rw [(List.cons.inj hSame).1] at h
    cases h
  · rfl

theorem eq_finite_of_fraction? {negative : Bool} {cs : List Char} {n : Numeral}
    (h : fraction? negative cs = some n) :
    ∃ digits exponent, n = finite negative digits exponent := by
  unfold fraction? at h
  dsimp only at h
  split at h <;> split at h
  · cases h
  · obtain ⟨e, _, rfl⟩ := Option.map_eq_some_iff.mp h
    exact ⟨_, _, rfl⟩
  · cases h
  · obtain ⟨e, _, rfl⟩ := Option.map_eq_some_iff.mp h
    exact ⟨_, _, rfl⟩

theorem toRat?_nonneg {digits : Nat} {exponent : Int} {q : Rat}
    (h : (finite false digits exponent).toRat? = some q) : 0 ≤ q := by
  rw [← Option.some.inj h, if_neg Bool.false_ne_true]
  split <;> positivity

theorem nonneg_of_read? {s : String} (hs : BeginsWithDigit s.toList) {n : Numeral}
    (h : read? s = some n) {q : Rat} (hq : n.toRat? = some q) : 0 ≤ q := by
  obtain ⟨c, cs, hText, hDigit⟩ := hs
  obtain ⟨rest, hTrim⟩ := trimWhere_cons (isMargin_of_isDigit hDigit) cs
  unfold read? at h
  rw [hText, hTrim, asciiDigits_cons hDigit] at h
  obtain ⟨bare, hJoin, hRead⟩ := Option.bind_eq_some_iff.mp h
  obtain ⟨joined, rfl⟩ := joinDigits?_cons hDigit hJoin
  unfold readBare? at hRead
  rw [splitSign_cons hDigit] at hRead
  simp only at hRead
  split at hRead
  · cases hRead
    cases hq
  · split at hRead
    · cases hRead
      cases hq
    · obtain ⟨digits, exponent, rfl⟩ := eq_finite_of_fraction? hRead
      exact toRat?_nonneg hq

end Numeral

/-! ## Writing -/

namespace Decimal

theorem isDigit_of_mem_toDigits {n : Nat} {c : Char} (h : c ∈ Nat.toDigits 10 n) :
    c.isDigit = true := Nat.isDigit_of_mem_toDigits (by decide) (by decide) h

theorem beginsWithDigit_positional (d : Decimal) : BeginsWithDigit d.positional.toList := by
  unfold positional
  simp only
  split
  · rw [String.toList_ofList]
    exact beginsWithDigit_append Nat.toDigits_ne_nil (fun c hc => isDigit_of_mem_toDigits hc) _
  · rw [String.toList_ofList]
    apply beginsWithDigit_append
    · rw [ne_eq, ← List.length_eq_zero_iff, List.length_take, List.length_append,
        List.length_replicate]
      omega
    · intro c hc
      rcases List.mem_append.mp (List.mem_of_mem_take hc) with hZero | hDigit
      · rw [(List.mem_replicate.mp hZero).2]
        rfl
      · exact isDigit_of_mem_toDigits hDigit

theorem beginsWithDigit_scientific (d : Decimal) : BeginsWithDigit d.scientific.toList := by
  unfold scientific
  simp only
  have hAll := fun c => isDigit_of_mem_toDigits (n := d.digits) (c := c)
  split
  · rename_i hNone
    exact absurd hNone Nat.toDigits_ne_nil
  · rename_i c hOne
    rw [String.toList_ofList]
    exact ⟨c, _, rfl, hAll c (hOne ▸ List.mem_singleton_self c)⟩
  · rename_i c cs _ hMore
    rw [String.toList_ofList]
    exact ⟨c, _, rfl, hAll c (hMore ▸ List.mem_cons_self)⟩

end Decimal

/-! ## The sign bit -/

section Fields

variable (b : BitVec Format.binary64.numBits)

theorem toNat_unpackSign : (UnpackedFloat.unpackSign b).toNat = b.toNat / 2 ^ 63 % 2 := by
  unfold UnpackedFloat.unpackSign
  simp [BitVec.extractLsb_toNat, Nat.shiftRight_eq_div_pow]

theorem toNat_unpackExponent :
    (UnpackedFloat.unpackExponent b).toNat = b.toNat / 2 ^ 52 % 2 ^ 11 := by
  simp [UnpackedFloat.unpackExponent, BitVec.extractLsb_toNat, Nat.shiftRight_eq_div_pow]

theorem toNat_unpackMantissa : (UnpackedFloat.unpackMantissa b).toNat = b.toNat % 2 ^ 52 := by
  simp [UnpackedFloat.unpackMantissa, BitVec.extractLsb_toNat]

theorem fields_eq_zero_of_le (h : (UnpackedFloat.zero .positive).le (.unpack .binary64 b) = true)
    (hSign : UnpackedFloat.Sign.ofBitVec (UnpackedFloat.unpackSign b) = .negative) :
    UnpackedFloat.unpackExponent b = 0#_ ∧ UnpackedFloat.unpackMantissa b = 0#_ := by
  unfold UnpackedFloat.unpack at h
  dsimp only at h
  rw [hSign] at h
  by_cases hLast : UnpackedFloat.unpackExponent b = -1#_
  · rw [if_pos hLast] at h
    split at h <;> cases h
  · rw [if_neg hLast] at h
    by_cases hFirst : UnpackedFloat.unpackExponent b = 0#_
    · rw [if_pos hFirst] at h
      by_cases hZero : UnpackedFloat.unpackMantissa b = 0#_
      · exact ⟨hFirst, hZero⟩
      · rw [dif_neg hZero] at h
        cases h
    · rw [if_neg hFirst] at h
      cases h

end Fields

theorem fields_eq_zero_of_sign {x : Float} (h : 0 ≤ x) (hSign : x.toBits.toNat / 2 ^ 63 = 1) :
    x.toBits.toNat / 2 ^ 52 % 2 ^ 11 = 0 ∧ x.toBits.toNat % 2 ^ 52 = 0 := by
  have hBits : x.toBits.toNat = x.toModel.toBits.toBitVec.toNat := rfl
  have hLe : (UnpackedFloat.zero .positive).le x.toModel.unpack = true := of_decide_eq_true h
  have hNegative : UnpackedFloat.Sign.ofBitVec
      (@UnpackedFloat.unpackSign Format.binary64 x.toModel.toBits.toBitVec) = .negative := by
    unfold UnpackedFloat.Sign.ofBitVec
    rw [if_neg]
    intro hZero
    have hBit := congrArg BitVec.toNat hZero
    rw [toNat_unpackSign, ← hBits, hSign] at hBit
    cases hBit
  obtain ⟨hExponent, hMantissa⟩ := fields_eq_zero_of_le _ hLe hNegative
  have hBiased := congrArg BitVec.toNat hExponent
  have hFraction := congrArg BitVec.toNat hMantissa
  rw [toNat_unpackExponent] at hBiased
  rw [toNat_unpackMantissa] at hFraction
  exact ⟨hBiased, hFraction⟩

theorem ofFloat_of_nonneg {x : Float} (h : 0 ≤ x) :
    Binary.ofFloat x = .nan ∨ Binary.ofFloat x = .infinite false ∨
      (∃ m e, Binary.ofFloat x = .finite false m e) ∨ ∃ e, Binary.ofFloat x = .finite true 0 e := by
  unfold Binary.ofFloat
  dsimp only
  by_cases hSign : x.toBits.toNat / 2 ^ 63 = 1
  · obtain ⟨hBiased, hFraction⟩ := fields_eq_zero_of_sign h hSign
    rw [show x.toBits.toNat / Nat.pow 2 63 = 1 from hSign,
      show x.toBits.toNat / Nat.pow 2 52 % Nat.pow 2 11 = 0 from hBiased,
      show x.toBits.toNat % Nat.pow 2 52 = 0 from hFraction]
    exact .inr (.inr (.inr ⟨_, rfl⟩))
  · rw [show (x.toBits.toNat / Nat.pow 2 63 == 1) = false from beq_eq_false_iff_ne.mpr hSign]
    split
    · split
      · exact .inr (.inl rfl)
      · exact .inl rfl
    · split
      · exact .inr (.inr (.inl ⟨_, _, rfl⟩))
      · exact .inr (.inr (.inl ⟨_, _, rfl⟩))

/-- The value that the text of a number reads back as, if it has one, is not below zero either. -/
theorem nonneg_of_general {x : Float} (h : 0 ≤ x) {n : Numeral}
    (hRead : Numeral.read? (general x) = some n) {q : Rat} (hq : n.toRat? = some q) : 0 ≤ q := by
  unfold general at hRead
  rcases ofFloat_of_nonneg h with hNan | hInfinite | ⟨m, e, hFinite⟩ | ⟨e, hZero⟩
  · rw [hNan] at hRead
    have hWord : n = .nan := Option.some.inj (hRead.symm.trans (by decide +kernel))
    rw [hWord] at hq
    cases hq
  · rw [hInfinite] at hRead
    have hWord : n = .infinite false := Option.some.inj (hRead.symm.trans (by decide +kernel))
    rw [hWord] at hq
    cases hq
  · rw [hFinite] at hRead
    refine Numeral.nonneg_of_read? ?_ hRead hq
    change BeginsWithDigit (String.toList (if _ then _ else _))
    split
    · exact ⟨'0', [], rfl, rfl⟩
    · dsimp only
      split
      · exact Decimal.beginsWithDigit_positional _
      · exact Decimal.beginsWithDigit_scientific _
  · rw [hZero] at hRead
    change Numeral.read? "-0" = some n at hRead
    have hWord : n = .finite true 0 0 := Option.some.inj (hRead.symm.trans (by decide +kernel))
    rw [hWord] at hq
    exact Option.some.inj hq ▸ le_refl 0

end TypeDiagram.Number

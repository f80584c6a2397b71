import Mathlib.Tactic.Ring
import TypeDiagram.Proofs.Number.Sign

/-! # Decimals read back as they were written

A decimal number is written with all its digits around a point, or with one digit in front of the
point and an exponent. Both texts read back as this number.
-/

namespace TypeDiagram.Number

/-! ## Plain characters -/

def IsPlain (c : Char) : Prop := c.isDigit = true ∨ c ∈ ['.', 'e', '+', '-']

theorem IsPlain.isMargin {c : Char} (h : IsPlain c) : Numeral.isMargin c = false := by
  rcases h with hDigit | hMark
  · exact Numeral.isMargin_of_isDigit hDigit
  · revert c
    simp [Numeral.isMargin, Text.isBlank]

theorem IsPlain.ne_low_line {c : Char} (h : IsPlain c) : (c == '_') = false := by
  rw [beq_eq_false_iff_ne]
  rintro rfl
  exact absurd h (by unfold IsPlain; decide)

namespace Numeral

theorem trimWhere_eq_self {blank : Char → Bool} {cs : List Char} (h : ∀ c ∈ cs, blank c = false) :
    Text.trimWhere blank cs = cs := by
  have hDrop : ∀ ds : List Char, (∀ c ∈ ds, blank c = false) → ds.dropWhile blank = ds := by
    intro ds hds
    cases ds with
    | nil => rfl
    | cons d ds => exact List.dropWhile_cons_of_neg (by simp [hds d List.mem_cons_self])
  rw [Text.trimWhere, hDrop cs h, hDrop _ fun c hc => h c (List.mem_reverse.mp hc),
    List.reverse_reverse]

theorem asciiDigits_of_plain {cs : List Char} (h : ∀ c ∈ cs, IsPlain c) : asciiDigits cs = cs := by
  induction cs with
  | nil => rfl
  | cons c cs ih =>
    have hRest := ih fun d hd => h d (List.mem_cons_of_mem c hd)
    rcases h c List.mem_cons_self with hDigit | hMark
    · rw [asciiDigits_cons hDigit, hRest]
    · have hSame : ∀ d ∈ ['.', 'e', '+', '-'], Text.digitValue? d = none := by
        simp [Text.digitValue?, Text.digitZeros]
      rw [asciiDigits, List.map_cons, hSame c hMark]
      exact congrArg (c :: ·) hRest

theorem joinDigits?_of_plain {cs : List Char} (h : ∀ c ∈ cs, IsPlain c) {previous : Char}
    (hPrevious : (previous == '_') = false) : joinDigits? previous cs = some cs := by
  induction cs generalizing previous with
  | nil => rw [joinDigits?, hPrevious, if_neg Bool.false_ne_true]
  | cons c cs ih =>
    have hMark := (h c List.mem_cons_self).ne_low_line
    rw [joinDigits?, hMark, hPrevious, if_neg Bool.false_ne_true, Bool.false_and,
      if_neg Bool.false_ne_true, ih (fun d hd => h d (List.mem_cons_of_mem c hd)) hMark,
      Option.map_some]

theorem read?_of_plain {cs : List Char} (h : ∀ c ∈ cs, IsPlain c) :
    read? (String.ofList cs) = readBare? cs := by
  rw [read?, String.toList_ofList, trimWhere_eq_self fun c hc => (h c hc).isMargin,
    asciiDigits_of_plain h, joinDigits?_of_plain h (by decide)]
  rfl

def minus (negative : Bool) : List Char := if negative then ['-'] else []

theorem readBare?_of_digit {cs : List Char} (h : BeginsWithDigit cs) (negative : Bool) :
    readBare? (minus negative ++ cs) = fraction? negative cs := by
  obtain ⟨c, rest, rfl, hDigit⟩ := h
  have hSign : splitSign (minus negative ++ c :: rest) = (negative, c :: rest) := by
    cases negative with
    | true => rfl
    | false => exact splitSign_cons hDigit rest
  have hLower : c.toLower = c := by
    obtain ⟨_, hHigh⟩ := (isDigit_iff c).mp hDigit
    refine dif_neg ?_
    intro hUpper
    have : 65 ≤ c.toNat := hUpper.1
    omega
  have hWord : ∀ word : String, (word.toList.head?.any Char.isDigit) = false →
      (String.ofList ((c :: rest).map Char.toLower) == word) = false := by
    intro word hLetter
    rw [List.map_cons, hLower, beq_eq_false_iff_ne]
    rintro rfl
    rw [String.toList_ofList, List.head?_cons, Option.any_some, hDigit] at hLetter
    cases hLetter
  rw [readBare?, hSign]
  dsimp only
  rw [hWord "inf" (by decide), hWord "infinity" (by decide), hWord "nan" (by decide)]
  rfl

/-! ## Fractions -/

def EndsDigits (cs : List Char) : Prop := (cs.head?.any Char.isDigit) = false

theorem takeWhile_digits {ds : List Char} (hDigits : ∀ c ∈ ds, c.isDigit = true) {cs : List Char}
    (hEnd : EndsDigits cs) : (ds ++ cs).takeWhile Char.isDigit = ds ∧
      (ds ++ cs).dropWhile Char.isDigit = cs := by
  rw [List.takeWhile_append_of_pos hDigits, List.dropWhile_append_of_pos hDigits]
  cases cs with
  | nil => exact ⟨List.append_nil ds, rfl⟩
  | cons c cs =>
    have hc : ¬ c.isDigit = true := Bool.eq_false_iff.mp hEnd
    rw [List.takeWhile_cons_of_neg hc, List.dropWhile_cons_of_neg hc]
    exact ⟨List.append_nil ds, rfl⟩

variable {whole part tail : List Char}

theorem fraction?_whole (hWhole : ∀ c ∈ whole, c.isDigit = true) (hSome : whole ≠ [])
    (hTail : EndsDigits tail) (hPoint : tail.head? ≠ some '.') (negative : Bool) :
    fraction? negative (whole ++ tail) =
      (exponent? tail).map fun e => finite negative (natOf whole) e := by
  obtain ⟨hTake, hDrop⟩ := takeWhile_digits hWhole hTail
  have hEmpty : whole.isEmpty = false := by simpa using hSome
  rw [fraction?, hTake, hDrop]
  split
  · rename_i hSplit
    split at hSplit
    · exact absurd rfl hPoint
    · obtain ⟨rfl, rfl⟩ := Prod.mk.inj hSplit
      rw [hEmpty]
      simp

theorem fraction?_point (hWhole : ∀ c ∈ whole, c.isDigit = true) (hSome : whole ≠ [])
    (hPart : ∀ c ∈ part, c.isDigit = true) (hTail : EndsDigits tail) (negative : Bool) :
    fraction? negative (whole ++ '.' :: (part ++ tail)) =
      (exponent? tail).map fun e => finite negative (natOf (whole ++ part)) (e - part.length) := by
  have hPoint : EndsDigits ('.' :: (part ++ tail)) := rfl
  obtain ⟨hTake, hDrop⟩ := takeWhile_digits hWhole hPoint
  obtain ⟨hTake', hDrop'⟩ := takeWhile_digits hPart hTail
  have hEmpty : whole.isEmpty = false := by simpa using hSome
  rw [fraction?, hTake, hDrop]
  simp only [hTake', hDrop', hEmpty, Bool.false_and, if_neg Bool.false_ne_true]

theorem natOf_toDigits (n : Nat) : natOf (Nat.toDigits 10 n) = n :=
  Nat.ofDigitChars_ten_toDigits

theorem natOf_padded (k n : Nat) : natOf (List.replicate k '0' ++ Nat.toDigits 10 n) = n := by
  change Nat.ofDigitChars 10 _ 0 = n
  rw [Nat.ofDigitChars_append, Nat.ofDigitChars_replicate_zero]
  exact natOf_toDigits n

/-- The power of ten behind a number: a mark, the sign of the exponent and its digits. -/
def power (e : Int) : List Char :=
  (if e < 0 then ['e', '-'] else ['e', '+']) ++
    List.replicate (2 - (Nat.toDigits 10 e.natAbs).length) '0' ++ Nat.toDigits 10 e.natAbs

theorem power_eq_cons (e : Int) : ∃ rest, power e = 'e' :: rest := by
  unfold power
  split <;> exact ⟨_, rfl⟩

theorem exponent?_power (e : Int) : exponent? (power e) = some e := by
  unfold power
  generalize hDigits : List.replicate (2 - (Nat.toDigits 10 e.natAbs).length) '0' ++
    Nat.toDigits 10 e.natAbs = ds
  have hAll : ds.all Char.isDigit = true := by
    rw [← hDigits, List.all_append, List.all_replicate, List.all_eq_true.mpr fun c hc =>
      Decimal.isDigit_of_mem_toDigits hc]
    simp
  have hSome : ds.isEmpty = false := by simp [← hDigits, Nat.toDigits_ne_nil]
  have hNumber : natOf ds = e.natAbs := hDigits ▸ natOf_padded _ _
  rw [List.append_assoc, hDigits]
  split
  · have hMagnitude : some (-(e.natAbs : Int)) = some e := by rw [Option.some_inj]; omega
    simpa [exponent?, splitSign, hAll, hSome, hNumber] using hMagnitude
  · have hMagnitude : some (e.natAbs : Int) = some e := by rw [Option.some_inj]; omega
    simpa [exponent?, splitSign, hAll, hSome, hNumber] using hMagnitude

theorem isPlain_of_mem_power {e : Int} {c : Char} (h : c ∈ power e) : IsPlain c := by
  rcases List.mem_append.mp h with hFront | hDigit
  · rcases List.mem_append.mp hFront with hMark | hZero
    · refine .inr ?_
      split at hMark <;> rcases List.mem_pair.mp hMark with rfl | rfl <;> decide
    · rw [(List.mem_replicate.mp hZero).2]
      exact .inl rfl
  · exact .inl (Decimal.isDigit_of_mem_toDigits hDigit)

end Numeral

/-! ## Decimals -/

namespace Decimal

open Numeral

theorem read?_signed {cs : List Char} (hPlain : ∀ c ∈ cs, IsPlain c) (hDigit : BeginsWithDigit cs)
    (negative : Bool) :
    read? (signed negative (String.ofList cs)) = fraction? negative cs := by
  have hText : signed negative (String.ofList cs) = String.ofList (minus negative ++ cs) := by
    cases negative with
    | true => exact String.ofList_append.symm
    | false => rfl
  rw [hText, read?_of_plain, readBare?_of_digit hDigit]
  intro c hc
  rcases List.mem_append.mp hc with hSign | hRest
  · cases negative with
    | true =>
      rw [List.mem_singleton.mp hSign]
      exact .inr (by decide)
    | false => exact absurd hSign List.not_mem_nil
  · exact hPlain c hRest

/-- The same number, with the zeros that a positive exponent stands for among the digits. -/
def spread (d : Decimal) : Decimal :=
  if 0 ≤ d.exponent then ⟨d.digits * 10 ^ d.exponent.natAbs, 0⟩ else d

theorem natOf_append_zeros (ds : List Char) (k : Nat) :
    natOf (ds ++ List.replicate k '0') = natOf ds * 10 ^ k := by
  induction k with
  | zero => rw [List.replicate_zero, List.append_nil, Nat.pow_zero, Nat.mul_one]
  | succ k ih =>
    have hLast (cs : List Char) : natOf (cs ++ ['0']) = 10 * natOf cs := by
      simp [natOf]
    rw [List.replicate_succ', ← List.append_assoc, hLast, ih, Nat.pow_succ]
    ring

section Writing

variable (d : Decimal) (negative : Bool)

theorem isDigit_of_mem_padded {k n l : Nat} {c : Char}
    (h : c ∈ List.replicate k '0' ++ Nat.toDigits 10 n ++ List.replicate l '0') :
    c.isDigit = true := by
  rcases List.mem_append.mp h with hFront | hZero
  · rcases List.mem_append.mp hFront with hZero | hDigit
    · rw [(List.mem_replicate.mp hZero).2]
      rfl
    · exact isDigit_of_mem_toDigits hDigit
  · rw [(List.mem_replicate.mp hZero).2]
    rfl

theorem read?_positional : read? (signed negative d.positional) =
    some (.finite negative d.spread.digits d.spread.exponent) := by
  unfold positional spread
  dsimp only
  split
  · generalize hAll : Nat.toDigits 10 d.digits ++ List.replicate d.exponent.natAbs '0' = ds
    have hDigits : ∀ c ∈ ds, c.isDigit = true := fun c hc =>
      isDigit_of_mem_padded (k := 0) (hAll ▸ hc)
    have hSome : ds ≠ [] := by simp [← hAll, Nat.toDigits_ne_nil]
    have hBegins : BeginsWithDigit ds := by
      simpa using beginsWithDigit_append hSome hDigits []
    have hNil : EndsDigits [] := rfl
    have hRead := fraction?_whole hDigits hSome hNil (by simp) negative
    rw [List.append_nil, ← hAll, natOf_append_zeros, natOf_toDigits] at hRead
    rw [read?_signed (fun c hc => .inl (hDigits c hc)) hBegins, ← hAll, hRead]
    rfl
  · generalize hPadded : List.replicate (d.exponent.natAbs + 1 - (Nat.toDigits 10 d.digits).length)
      '0' ++ Nat.toDigits 10 d.digits = ds
    have hDigits : ∀ c ∈ ds, c.isDigit = true := fun c hc =>
      isDigit_of_mem_padded (l := 0) (by rwa [hPadded, List.replicate_zero, List.append_nil])
    have hNumber : natOf ds = d.digits := hPadded ▸ natOf_padded _ _
    have hLength : d.exponent.natAbs < ds.length := by
      rw [← hPadded, List.length_append, List.length_replicate]
      omega
    have hSome : ds.take (ds.length - d.exponent.natAbs) ≠ [] := by
      rw [ne_eq, ← List.length_eq_zero_iff, List.length_take]
      omega
    have hWhole : ∀ c ∈ ds.take (ds.length - d.exponent.natAbs), c.isDigit = true :=
      fun c hc => hDigits c (List.mem_of_mem_take hc)
    have hPart : ∀ c ∈ ds.drop (ds.length - d.exponent.natAbs), c.isDigit = true :=
      fun c hc => hDigits c (List.mem_of_mem_drop hc)
    have hNil : EndsDigits [] := rfl
    have hRead := fraction?_point hWhole hSome hPart hNil negative
    rw [List.append_nil, List.take_append_drop, List.length_drop, hNumber] at hRead
    rw [read?_signed _ (beginsWithDigit_append hSome hWhole _), hRead]
    · change some (Numeral.finite _ _ _) = _
      congr 2
      omega
    · intro c hc
      rcases List.mem_append.mp hc with hFront | hBack
      · exact .inl (hWhole c hFront)
      · rcases List.mem_cons.mp hBack with rfl | hRest
        · exact .inr List.mem_cons_self
        · exact .inl (hPart c hRest)

theorem scientific_eq : ∃ c cs, Nat.toDigits 10 d.digits = c :: cs ∧
    d.scientific = String.ofList (c :: ((if cs = [] then [] else '.' :: cs) ++
      power d.leadingExponent)) := by
  unfold scientific
  dsimp only
  split
  · rename_i hNone
    exact absurd hNone Nat.toDigits_ne_nil
  · rename_i c hOne
    exact ⟨c, [], hOne, rfl⟩
  · rename_i c cs hSome hMore
    exact ⟨c, cs, hMore, by rw [if_neg hSome]; rfl⟩

theorem read?_scientific : read? (signed negative d.scientific) =
    some (.finite negative d.digits d.exponent) := by
  obtain ⟨c, cs, hDigits, hText⟩ := scientific_eq d
  have hAll : ∀ x ∈ c :: cs, x.isDigit = true := fun x hx =>
    isDigit_of_mem_toDigits (hDigits ▸ hx)
  have hNumber : natOf (c :: cs) = d.digits := hDigits ▸ natOf_toDigits _
  have hc := hAll c List.mem_cons_self
  have hcs : ∀ x ∈ cs, x.isDigit = true := fun x hx => hAll x (List.mem_cons_of_mem c hx)
  have hExponent : exponent? (power d.leadingExponent) = some (cs.length + d.exponent) := by
    rw [exponent?_power, leadingExponent, hDigits, List.length_cons]
    simp
  have hPlain : ∀ x ∈ power d.leadingExponent, IsPlain x := fun x => isPlain_of_mem_power
  obtain ⟨rest, hPower⟩ := power_eq_cons d.leadingExponent
  rw [hText]
  rw [hPower] at hExponent hPlain ⊢
  have hEnd : EndsDigits ('e' :: rest) := rfl
  rw [read?_signed _ ⟨c, _, rfl, hc⟩]
  · split
    · rename_i hOne
      subst hOne
      have hRead := fraction?_whole hAll (List.cons_ne_nil c []) hEnd (by simp) negative
      rw [hNumber, hExponent] at hRead
      simpa using hRead
    · have hFirst : ∀ x ∈ [c], x.isDigit = true := fun x hx => by rwa [List.mem_singleton.mp hx]
      have hRead := fraction?_point hFirst (List.cons_ne_nil c []) hcs hEnd negative
      rw [List.singleton_append, List.singleton_append, hNumber, hExponent] at hRead
      simpa using hRead
  · intro x hx
    rcases List.mem_cons.mp hx with rfl | hMore
    · exact .inl hc
    · rcases List.mem_append.mp hMore with hDigit | hBack
      · split at hDigit
        · exact absurd hDigit List.not_mem_nil
        · rcases List.mem_cons.mp hDigit with rfl | hRest
          · exact .inr List.mem_cons_self
          · exact .inl (hcs x hRest)
      · exact hPlain x hBack

end Writing

end Decimal

end TypeDiagram.Number

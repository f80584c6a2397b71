import TypeDiagram.Layout.Coordinate
import Mathlib.Algebra.Order.Field.Rat
import Mathlib.Tactic.Linarith

/-! # Laws that rounding keeps

Sums that are rounded obey few laws of the exact ones, and some values are no numbers at all. But
rounding never swaps two results, and what is no number makes no number. These laws are all that the
order of boxes in a layer needs; `TypeDiagram.Proofs.Number.Binary64` shows them of the numbers that
diagrams are drawn with.
-/

namespace TypeDiagram.Coordinate

variable {α : Type} [Coordinate α]

def IsNumber (a : α) : Prop := same a a = true

structure Nonneg (a : α) : Prop where
  number : IsNumber a
  not_less : less a (nat 0) = false

/-- Arithmetic that rounds its results, if at all, without swapping any two of them. -/
class Monotone (α : Type) [Coordinate α] : Prop where
  less_irrefl (a : α) : less a a = false
  isNumber_of_less {a b : α} : less a b = true → IsNumber a ∧ IsNumber b
  less_or_less {a b c : α} : less a b = true → IsNumber c → less a c = true ∨ less c b = true
  isNumber_of_add {a b : α} : IsNumber (a + b) → IsNumber a ∧ IsNumber b
  isNumber_of_sub {a b : α} : IsNumber (a - b) → IsNumber a ∧ IsNumber b
  isNumber_of_div {a b : α} : IsNumber (a / b) → IsNumber a
  less_of_add {a b c : α} : less (a + c) (b + c) = true → less a b = true
  less_of_sub {a b c : α} : less (a - c) (b - c) = true → less a b = true
  not_less_add {a e : α} : Nonneg e → less (a + e) a = false
  /-- Only the lowest value there is can be made no number by adding to it. -/
  isNumber_add {a b e : α} : Nonneg e → less b a = true → IsNumber (a + e)
  nonneg_zero : Nonneg (nat 0 : α)
  nonneg_half {e : α} : Nonneg e → Nonneg (e / nat 2)

export Monotone (less_irrefl isNumber_of_less less_or_less isNumber_of_add isNumber_of_sub
  isNumber_of_div less_of_add less_of_sub not_less_add isNumber_add nonneg_zero nonneg_half)

class Asymmetric (α : Type) [Coordinate α] : Prop where
  less_asymm {a b : α} : less a b = true → less b a = false

export Asymmetric (less_asymm)

/-! ## Exact numbers -/

theorem isNumber_rat (a : Rat) : IsNumber a := beq_self_eq_true a

theorem nonneg_rat_iff (a : Rat) : Nonneg a ↔ 0 ≤ a := by
  have hLess : less a (nat 0) = false ↔ 0 ≤ a := decide_eq_false_iff_not.trans not_lt
  exact ⟨fun h => hLess.mp h.not_less, fun h => ⟨isNumber_rat a, hLess.mpr h⟩⟩

instance : Monotone Rat where
  less_irrefl a := decide_eq_false (lt_irrefl a)
  isNumber_of_less {a b} _ := ⟨isNumber_rat a, isNumber_rat b⟩
  less_or_less {a b c} h _ := by
    rcases lt_or_ge a c with hLess | hGe
    · exact .inl (decide_eq_true hLess)
    · exact .inr (decide_eq_true (hGe.trans_lt (of_decide_eq_true h)))
  isNumber_of_add {a b} _ := ⟨isNumber_rat a, isNumber_rat b⟩
  isNumber_of_sub {a b} _ := ⟨isNumber_rat a, isNumber_rat b⟩
  isNumber_of_div {a _} _ := isNumber_rat a
  less_of_add h := decide_eq_true (lt_of_add_lt_add_right (of_decide_eq_true h))
  less_of_sub h := decide_eq_true (sub_lt_sub_iff_right _ |>.mp (of_decide_eq_true h))
  not_less_add {a e} h := by
    have := (nonneg_rat_iff e).mp h
    exact decide_eq_false (by linarith)
  isNumber_add {a _ e} _ _ := isNumber_rat (a + e)
  nonneg_zero := (nonneg_rat_iff _).mpr (le_refl 0)
  nonneg_half {e} h := (nonneg_rat_iff _).mpr (div_nonneg ((nonneg_rat_iff e).mp h) (by decide))

instance : Asymmetric Rat where
  less_asymm h := decide_eq_false (lt_asymm (of_decide_eq_true h))

/-! ## Numbers that are known to be high enough -/

variable [Monotone α]

structure Behind (floor a c : α) : Prop where
  above : less floor c = true
  not_less : less c a = false

theorem Behind.refl {floor a : α} (h : less floor a = true) : Behind floor a a := ⟨h, less_irrefl a⟩

theorem Behind.isNumber {floor a c : α} (h : Behind floor a c) : IsNumber c :=
  (isNumber_of_less h.above).2

theorem Behind.of_not_less {floor a c d : α} (h : Behind floor a c) (hd : IsNumber d)
    (hLess : less d c = false) : Behind floor a d := by
  constructor
  · rcases less_or_less h.above hd with hAbove | hBelow
    · exact hAbove
    · rw [hLess] at hBelow
      cases hBelow
  · rw [← Bool.not_eq_true]
    intro hBelow
    rcases less_or_less hBelow h.isNumber with hFirst | hSecond
    · rw [hLess] at hFirst
      cases hFirst
    · rw [h.not_less] at hSecond
      cases hSecond

theorem Behind.add {floor a c e : α} (h : Behind floor a c) (he : Nonneg e) :
    Behind floor a (c + e) :=
  h.of_not_less (isNumber_add he h.above) (not_less_add he)

theorem Behind.max {floor a c w : α} (h : Behind floor a c) (hNumber : IsNumber (max w c)) :
    Behind floor a (Coordinate.max w c) := by
  unfold Coordinate.max at hNumber ⊢
  by_cases hLess : less w c = true
  · rwa [if_pos hLess]
  · rw [if_neg hLess] at hNumber ⊢
    exact h.of_not_less hNumber (Bool.eq_false_iff.mpr hLess)

omit [Monotone α] in
theorem isNumber_max {a b : α} (ha : IsNumber a) (hb : IsNumber b) :
    IsNumber (Coordinate.max a b) := by
  unfold Coordinate.max
  split
  · exact hb
  · exact ha

theorem isNumber_of_mean {as : List α} (h : IsNumber (mean as)) {a : α} (ha : a ∈ as) :
    IsNumber a := by
  have hSum : ∀ (bs : List α) (start : α), IsNumber (bs.foldl (· + ·) start) →
      IsNumber start ∧ ∀ b ∈ bs, IsNumber b := by
    intro bs
    induction bs with
    | nil => exact fun start hStart => ⟨hStart, fun b hb => absurd hb List.not_mem_nil⟩
    | cons b bs ih =>
      intro start hAll
      obtain ⟨hFirst, hRest⟩ := ih _ hAll
      obtain ⟨hStart, hb⟩ := isNumber_of_add hFirst
      refine ⟨hStart, fun c hc => ?_⟩
      rcases List.mem_cons.mp hc with rfl | hLater
      · exact hb
      · exact hRest c hLater
  exact (hSum as _ (isNumber_of_div h)).2 a ha

end TypeDiagram.Coordinate

import TypeDiagram.Layout.Coordinate

/-! # Sizes that are the same

Sameness of sizes is an equivalence for all number types whose test of sameness is symmetric and
transitive. The test of binary64 numbers is not reflexive, but what is no number is alike.
-/

namespace TypeDiagram

open Float.Model

class LawfulCoordinate (α : Type) [Coordinate α] : Prop where
  same_symm {a b : α} : Coordinate.same a b = true → Coordinate.same b a = true
  same_trans {a b c : α} :
    Coordinate.same a b = true → Coordinate.same b c = true → Coordinate.same a c = true

instance : LawfulCoordinate Rat where
  same_symm h := beq_iff_eq.mpr (beq_iff_eq.mp h).symm
  same_trans h h' := beq_iff_eq.mpr ((beq_iff_eq.mp h).trans (beq_iff_eq.mp h'))

class LawfulMagnitude (α : Type) [Magnitude α] : Prop where
  isZero_nat_zero : Magnitude.isZero (Magnitude.nat 0 : α) = true

instance : LawfulMagnitude Rat := ⟨rfl⟩

instance : LawfulMagnitude Float := ⟨rfl⟩

theorem then_compare_eq_iff {m m' : Nat} {e e' : Int} :
    (compare e e').then (compare m m') = .eq ↔ e = e' ∧ m = m' := by
  rw [Ordering.then_eq_eq, Int.compare_eq_eq, Nat.compare_eq_eq]

theorem compare_eq_iff (a b : UnpackedFloat) :
    a.compare b = some .eq ↔ (a = b ∧ a ≠ .notANumber) ∨ ∃ s t, a = .zero s ∧ b = .zero t := by
  constructor
  · intro h
    rcases a with ⟨_ | _⟩ | _ | _ | ⟨_ | _, m, e, hm⟩ <;>
      rcases b with ⟨_ | _⟩ | _ | _ | ⟨_ | _, m', e', hm'⟩ <;> try cases h
    · exact .inl ⟨rfl, nofun⟩
    · exact .inl ⟨rfl, nofun⟩
    · exact .inr ⟨_, _, rfl, rfl⟩
    · obtain ⟨rfl, rfl⟩ := then_compare_eq_iff.mp (Ordering.swap_eq_eq.mp (Option.some.inj h))
      exact .inl ⟨rfl, nofun⟩
    · obtain ⟨rfl, rfl⟩ := then_compare_eq_iff.mp (Option.some.inj h)
      exact .inl ⟨rfl, nofun⟩
  · rintro (⟨rfl, hNumber⟩ | ⟨_, _, rfl, rfl⟩)
    · rcases a with ⟨_ | _⟩ | _ | _ | ⟨_ | _, m, e, hm⟩
      · rfl
      · rfl
      · exact absurd rfl hNumber
      · rfl
      · exact congrArg some (Ordering.swap_eq_eq.mpr (then_compare_eq_iff.mpr ⟨rfl, rfl⟩))
      · exact congrArg some (then_compare_eq_iff.mpr ⟨rfl, rfl⟩)
    · rfl

theorem same_float_iff (a b : Float) :
    Coordinate.same a b = true ↔ a.toModel.unpack.compare b.toModel.unpack = some .eq := by
  change (a.toModel.unpack.compare b.toModel.unpack == some .eq) = true ↔ _
  exact beq_iff_eq

instance : LawfulCoordinate Float where
  same_symm {a b} h := by
    rw [same_float_iff, compare_eq_iff] at h ⊢
    rcases h with ⟨hSame, hNumber⟩ | ⟨s, t, ha, hb⟩
    · exact .inl ⟨hSame.symm, hSame ▸ hNumber⟩
    · exact .inr ⟨t, s, hb, ha⟩
  same_trans {a b c} h h' := by
    rw [same_float_iff, compare_eq_iff] at h h' ⊢
    rcases h with ⟨hSame, hNumber⟩ | ⟨s, t, ha, hb⟩
    · rwa [hSame]
    · rcases h' with ⟨hSame, _⟩ | ⟨_, u, _, hc⟩
      · exact .inr ⟨s, t, ha, hSame ▸ hb⟩
      · exact .inr ⟨s, u, ha, hc⟩

variable {α : Type} [Coordinate α]

theorem sameExtent_refl (a : α) : sameExtent a a = true := by
  unfold sameExtent
  cases Coordinate.same a a <;> rfl

theorem Size.same_refl (a : Size α) : a.same a = true := by
  rw [Size.same, sameExtent_refl, sameExtent_refl, Bool.and_self]

theorem sameSize_refl (a : Option (Size α)) : sameSize a a = true := by
  cases a with
  | none => rfl
  | some a => exact a.same_refl

variable [LawfulCoordinate α]

theorem sameExtent_symm {a b : α} (h : sameExtent a b = true) : sameExtent b a = true := by
  simp only [sameExtent, Bool.or_eq_true, Bool.and_eq_true] at h ⊢
  exact h.imp LawfulCoordinate.same_symm And.symm

theorem sameSize_symm {a b : Option (Size α)} (h : sameSize a b = true) : sameSize b a = true := by
  match a, b with
  | none, none => rfl
  | some a, some b =>
    simp only [sameSize, Size.same, Bool.and_eq_true] at h ⊢
    exact ⟨sameExtent_symm h.1, sameExtent_symm h.2⟩
  | none, some b | some a, none => cases h

theorem sameExtent_trans {a b c : α} (h : sameExtent a b = true) (h' : sameExtent b c = true) :
    sameExtent a c = true := by
  simp only [sameExtent, Bool.or_eq_true, Bool.and_eq_true, Bool.not_eq_true'] at h h' ⊢
  rcases h with h | ⟨ha, hb⟩ <;> rcases h' with h' | ⟨hb', hc⟩
  · exact .inl (LawfulCoordinate.same_trans h h')
  · rw [LawfulCoordinate.same_trans (LawfulCoordinate.same_symm h) h] at hb'
    cases hb'
  · rw [LawfulCoordinate.same_trans h' (LawfulCoordinate.same_symm h')] at hb
    cases hb
  · exact .inr ⟨ha, hc⟩

theorem Size.same_trans {a b c : Size α} (h : a.same b = true) (h' : b.same c = true) :
    a.same c = true := by
  simp only [Size.same, Bool.and_eq_true] at h h' ⊢
  exact ⟨sameExtent_trans h.1 h'.1, sameExtent_trans h.2 h'.2⟩

theorem sameSize_trans {a b c : Option (Size α)} (h : sameSize a b = true)
    (h' : sameSize b c = true) : sameSize a c = true := by
  match a, b, c with
  | none, none, none => rfl
  | some a, some b, some c => exact Size.same_trans h h'
  | none, some b, _ | some a, none, _ => cases h
  | none, none, some c | some a, some b, none => cases h'

/-! ## Rational numbers -/

theorem eq_of_sameExtent {a b : Rat} (h : sameExtent a b = true) : a = b := by
  have hSelf : Coordinate.same a a = true := beq_self_eq_true a
  unfold sameExtent at h
  rw [hSelf, Bool.not_true, Bool.false_and, Bool.or_false] at h
  exact beq_iff_eq.mp h

/-- Rational numbers all equal themselves, so sizes of them are the same only if they are equal. -/
theorem eq_of_sameSize {a b : Option (Size Rat)} (h : sameSize a b = true) : a = b := by
  match a, b with
  | none, none => rfl
  | some ⟨width, height⟩, some b =>
    obtain ⟨hWidth, hHeight⟩ := (Bool.and_eq_true _ _).mp h
    rw [show width = b.width from eq_of_sameExtent hWidth,
      show height = b.height from eq_of_sameExtent hHeight]
  | none, some b | some a, none => cases h

end TypeDiagram

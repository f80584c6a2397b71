import Mathlib.Data.List.Induction
import Mathlib.Data.List.Nodup

/-! # Sequences that grow at their end

A longer sequence can be cut at its last element, or where it could be cut before. So what is said
of an element and those before it or behind it is proved by the last element. A reader that stops at
the first element with a defect is the case in point; the first occurrences of what repeats are
another one.
-/

namespace TypeDiagram

theorem concat_eq_append_cons_iff {β : Type} {xs before after : List β} {x y : β} :
    xs ++ [x] = before ++ y :: after ↔ (xs = before ∧ x = y ∧ after = []) ∨
      ∃ rest, xs = before ++ y :: rest ∧ after = rest ++ [x] := by
  constructor
  · intro hSplit
    rcases List.eq_nil_or_concat after with rfl | ⟨rest, last, rfl⟩
    · obtain ⟨rfl, hSame⟩ := List.append_inj' hSplit rfl
      exact .inl ⟨rfl, List.singleton_inj.mp hSame, rfl⟩
    · have hLonger : xs ++ [x] = (before ++ y :: rest) ++ [last] := by simp [hSplit]
      obtain ⟨hRest, hSame⟩ := List.append_inj' hLonger rfl
      exact .inr ⟨rest, hRest, by rw [List.singleton_inj.mp hSame, List.concat_eq_append]⟩
  · rintro (⟨rfl, rfl, rfl⟩ | ⟨rest, rfl, rfl⟩)
    · rfl
    · simp

/-! ## First occurrences -/

theorem eraseDups_concat {β : Type} [DecidableEq β] (xs : List β) (x : β) :
    (xs ++ [x]).eraseDups = if x ∈ xs then xs.eraseDups else xs.eraseDups ++ [x] := by
  rw [List.eraseDups_append]
  by_cases hIn : x ∈ xs <;> simp [List.removeAll, hIn, List.eraseDups_cons]

theorem nodup_eraseDups {β : Type} [DecidableEq β] (xs : List β) : xs.eraseDups.Nodup := by
  induction xs using List.reverseRecOn with
  | nil => exact List.nodup_nil
  | append_singleton xs x ih =>
    rw [eraseDups_concat]
    split
    · exact ih
    · rename_i hOut
      refine List.nodup_append.mpr ⟨ih, List.nodup_singleton x, fun y hy z hz => ?_⟩
      rw [List.mem_singleton.mp hz]
      exact fun hSame => hOut (hSame ▸ List.mem_eraseDups.mp hy)

/-! ## First defects -/

variable {β σ ε : Type} {Defect : List β → β → ε → Prop} {xs : List β} {x : β} {e : ε}

/-- No element has a defect behind the ones before it. -/
def Flawless (Defect : List β → β → ε → Prop) (xs : List β) : Prop :=
  ∀ before x after, xs = before ++ x :: after → ∀ e, ¬ Defect before x e

/-- The first element with a defect has this one. -/
def FirstDefect (Defect : List β → β → ε → Prop) (xs : List β) (e : ε) : Prop :=
  ∃ before x after, xs = before ++ x :: after ∧ Flawless Defect before ∧ Defect before x e

theorem flawless_nil : Flawless Defect [] := by
  intro before x after hSplit
  cases before <;> cases hSplit

theorem not_firstDefect_nil : ¬ FirstDefect Defect [] e := by
  rintro ⟨before, x, after, hSplit, _⟩
  cases before <;> cases hSplit

theorem flawless_concat_iff :
    Flawless Defect (xs ++ [x]) ↔ Flawless Defect xs ∧ ∀ e, ¬ Defect xs x e := by
  constructor
  · intro h
    refine ⟨fun before y after hSplit => h before y (after ++ [x]) ?_, h xs x [] rfl⟩
    exact concat_eq_append_cons_iff.mpr (.inr ⟨after, hSplit, rfl⟩)
  · rintro ⟨hInit, hLast⟩ before y after hSplit
    rcases concat_eq_append_cons_iff.mp hSplit with ⟨rfl, rfl, _⟩ | ⟨rest, hRest, _⟩
    · exact hLast
    · exact hInit before y rest hRest

theorem firstDefect_concat_iff : FirstDefect Defect (xs ++ [x]) e ↔
    FirstDefect Defect xs e ∨ Flawless Defect xs ∧ Defect xs x e := by
  constructor
  · rintro ⟨before, y, after, hSplit, hBefore, h⟩
    rcases concat_eq_append_cons_iff.mp hSplit with ⟨rfl, rfl, _⟩ | ⟨rest, hRest, _⟩
    · exact .inr ⟨hBefore, h⟩
    · exact .inl ⟨before, y, rest, hRest, hBefore, h⟩
  · rintro (⟨before, y, after, hSplit, hBefore, h⟩ | ⟨hInit, h⟩)
    · refine ⟨before, y, after ++ [x], ?_, hBefore, h⟩
      exact concat_eq_append_cons_iff.mpr (.inr ⟨after, hSplit, rfl⟩)
    · exact ⟨xs, x, [], rfl, hInit, h⟩

theorem not_flawless_iff : ¬ Flawless Defect xs ↔ ∃ e, FirstDefect Defect xs e := by
  induction xs using List.reverseRecOn with
  | nil => exact iff_of_false (not_not.mpr flawless_nil) fun ⟨_, h⟩ => not_firstDefect_nil h
  | append_singleton xs x ih =>
    simp only [flawless_concat_iff, firstDefect_concat_iff, exists_or, ← ih, exists_and_left]
    by_cases h : Flawless Defect xs <;> simp [h]

theorem exists_ok_iff (r : Except ε σ) : (∃ s, r = .ok s) ↔ ∀ e, r ≠ .error e := by
  cases r <;> simp

/-- A reader that stops at an error, and behind elements that it reads fails as the next one has a
defect, fails with the first defect. -/
theorem reads_to_first_defect (Admitted : β → Prop) {read : List β → Except ε σ}
    (hNil : ∃ s, read [] = .ok s)
    (hStops : ∀ xs x e, read xs = .error e → read (xs ++ [x]) = .error e)
    (hNext : ∀ xs x s, (∀ y ∈ xs ++ [x], Admitted y) → read xs = .ok s →
      ∀ e, read (xs ++ [x]) = .error e ↔ Defect xs x e)
    (hAll : ∀ y ∈ xs, Admitted y) :
    ((∃ s, read xs = .ok s) ↔ Flawless Defect xs) ∧
      ∀ e, read xs = .error e ↔ FirstDefect Defect xs e := by
  induction xs using List.reverseRecOn with
  | nil =>
    obtain ⟨s, hs⟩ := hNil
    refine ⟨iff_of_true ⟨s, hs⟩ flawless_nil, fun e => ?_⟩
    rw [hs]
    exact iff_of_false nofun not_firstDefect_nil
  | append_singleton xs x ih =>
    obtain ⟨hOk, hError⟩ := ih fun y hy => hAll y (List.mem_append_left _ hy)
    simp only [flawless_concat_iff, firstDefect_concat_iff, ← hOk, ← hError]
    cases hRead : read xs with
    | error e =>
      rw [hStops xs x e hRead]
      simp
    | ok s =>
      have hStep := hNext xs x s hAll hRead
      simp [exists_ok_iff, hStep]

end TypeDiagram

import Mathlib.Data.List.TakeWhile
import TypeDiagram.Source.Lexeme
import TypeDiagram.Source.Terminal

/-! # What words are made of

Neither the characters of a word nor the escapes in it hold a mark such as `-` or `:`.
-/

namespace TypeDiagram.Source

def isWholeWord (text : List Char) : Bool := !text.isEmpty && wordLength text == text.length

/-- The marks that escapes do not hold either. -/
def breaks : List Char := marks.filter fun c => c ∉ ['\\', '\x7b', '\x7d']

section Breaks

variable {mark : Char} (hMark : mark ∈ breaks)

include hMark

theorem isHex_ne_mark {c : Char} (h : isHex c = true) : c ≠ mark := by
  have hNone : breaks.any isHex = false := by decide
  rintro rfl
  exact List.any_eq_false.mp hNone c hMark h

theorem isWordRest_ne_mark {c : Char} (h : isWordRest c = true) : c ≠ mark := by
  have hNone : breaks.any isWordRest = false := by decide
  rintro rfl
  exact List.any_eq_false.mp hNone c hMark h

theorem mark_ne_escape {c : Char} (h : c ∈ ['\\', 'u', '\x7b', '\x7d']) : mark ≠ c := by
  have hNone : (breaks.any fun mark => mark ∈ ['\\', 'u', '\x7b', '\x7d']) = false := by decide
  rintro rfl
  exact List.any_eq_false.mp hNone mark hMark (decide_eq_true h)

omit hMark in
theorem isWordRest_of_isWordStart {c : Char} (h : isWordStart c = true) : isWordRest c = true :=
  ((Bool.and_eq_true _ _).mp h).1

theorem mark_not_mem_unicodeEscape (cs : List Char) : mark ∉ cs.take (unicodeEscape cs) := by
  have hLetter : mark ≠ 'u' := mark_ne_escape hMark (by simp)
  unfold unicodeEscape
  split
  · rename_i cs
    dsimp only
    split
    · rename_i hBraced
      have hClosed : (cs.drop (cs.takeWhile isHex).length).head? = some '\x7d' := by
        simpa using ((Bool.and_eq_true _ _).mp hBraced).2
      have hTake : cs.take ((cs.takeWhile isHex).length + 1) = cs.takeWhile isHex ++ ['\x7d'] := by
        rw [List.take_add, List.take_one, hClosed,
          ← List.prefix_iff_eq_take.mp (List.takeWhile_prefix isHex)]
        rfl
      rw [List.take_succ_cons, List.take_succ_cons, hTake]
      simp only [List.mem_cons, List.mem_append, List.not_mem_nil, or_false, not_or]
      refine ⟨hLetter, mark_ne_escape hMark (by simp), fun hDigit => ?_,
        mark_ne_escape hMark (by simp)⟩
      exact isHex_ne_mark hMark (List.mem_takeWhile_imp hDigit) rfl
    · simp
  · rename_i cs _
    split
    · rename_i hDigits
      obtain ⟨_, hAll⟩ := (Bool.and_eq_true _ _).mp hDigits
      rw [List.take_succ_cons, List.mem_cons, not_or]
      exact ⟨hLetter, fun hIn => isHex_ne_mark hMark (List.all_eq_true.mp hAll _ hIn) rfl⟩
    · simp
  · simp

theorem mark_not_mem_wordFrom (atStart : Bool) (fuel : Nat) (cs : List Char) :
    mark ∉ cs.take (wordFrom atStart fuel cs) := by
  induction fuel generalizing atStart cs with
  | zero => simp [wordFrom]
  | succ fuel ih =>
    cases cs with
    | nil => simp
    | cons c cs =>
      rw [wordFrom]
      by_cases hEscape : (c == '\\') = true
      · rw [if_pos hEscape]
        dsimp only
        split
        · simp
        · rw [List.take_succ_cons, Nat.add_comm, List.take_add]
          simp only [List.mem_cons, List.mem_append, not_or]
          refine ⟨?_, mark_not_mem_unicodeEscape hMark cs, ih false _⟩
          rw [beq_iff_eq.mp hEscape]
          exact mark_ne_escape hMark (by simp)
      · rw [if_neg hEscape]
        by_cases hWord : (if atStart then isWordStart c else isWordRest c) = true
        · rw [if_pos hWord, List.take_succ_cons, List.mem_cons, not_or]
          refine ⟨Ne.symm (isWordRest_ne_mark hMark ?_), ih false cs⟩
          cases atStart with
          | false => exact hWord
          | true => exact isWordRest_of_isWordStart hWord
        · rw [if_neg hWord]
          simp

theorem mark_not_mem_of_isWholeWord {name : List Char} (h : isWholeWord name = true) :
    mark ∉ name := by
  have hAll : wordLength name = name.length := by
    simpa using ((Bool.and_eq_true _ _).mp h).2
  have hTake := mark_not_mem_wordFrom hMark true name.length name
  rwa [← wordLength, hAll, List.take_length] at hTake

end Breaks

end TypeDiagram.Source

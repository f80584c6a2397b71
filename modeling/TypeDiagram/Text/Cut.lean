/-!
Blanks at the ends of a text, the ends of its lines, and what stands in front of and behind a
character. `isBlank` is the Unicode property White_Space together with the four information
separators U+001C to U+001F; the zero-width space U+200B and the byte order mark U+FEFF are not
blank.
-/

namespace TypeDiagram.Text

def isBlank (c : Char) : Bool :=
  let n := c.toNat
  (0x09 ≤ n && n ≤ 0x0D) || (0x1C ≤ n && n ≤ 0x20) || n == 0x85 || n == 0xA0 || n == 0x1680 ||
    (0x2000 ≤ n && n ≤ 0x200A) || n == 0x2028 || n == 0x2029 || n == 0x202F || n == 0x205F ||
    n == 0x3000

def trimWhere (blank : Char → Bool) (cs : List Char) : List Char :=
  ((cs.dropWhile blank).reverse.dropWhile blank).reverse

def trim (s : String) : String :=
  String.ofList (trimWhere isBlank s.toList)

/-! ## Line ends -/

/-- A carriage return, alone or with a line feed behind it, counts as a line feed. -/
def unifyLineEnds : List Char → List Char
  | [] => []
  | '\r' :: '\n' :: cs => '\n' :: unifyLineEnds cs
  | c :: cs => (if c = '\r' then '\n' else c) :: unifyLineEnds cs

theorem not_mem_unifyLineEnds (cs : List Char) : '\r' ∉ unifyLineEnds cs := by
  fun_induction unifyLineEnds cs with
  | case1 => simp
  | case2 cs ih => simp [ih]
  | case3 c cs _ ih =>
    by_cases h : c = '\r'
    · simp [h, ih]
    · simp [h, ih, Ne.symm h]

theorem unifyLineEnds_of_not_mem {cs : List Char} (h : '\r' ∉ cs) : unifyLineEnds cs = cs := by
  fun_induction unifyLineEnds cs with
  | case1 => rfl
  | case2 => simp at h
  | case3 c cs _ ih =>
    rw [List.mem_cons, not_or] at h
    rw [ih h.2, if_neg (Ne.symm h.1)]

/-! ## Cutting at a character -/

def before (c : Char) (cs : List Char) : List Char := cs.takeWhile (· != c)

def after? (c : Char) (cs : List Char) : Option (List Char) := (cs.dropWhile (· != c)).tail?

theorem not_mem_before (c : Char) (cs : List Char) : c ∉ before c cs := by
  induction cs with
  | nil => simp [before]
  | cons d cs ih =>
    by_cases h : d = c
    · simp [before, h]
    · simpa [before, h, Ne.symm h] using ih

theorem after?_eq_none_iff (c : Char) (cs : List Char) : after? c cs = none ↔ c ∉ cs := by
  induction cs with
  | nil => simp [after?]
  | cons d cs ih =>
    by_cases h : d = c
    · simp [after?, h]
    · simpa [after?, h, Ne.symm h] using ih

theorem before_append_after {c : Char} {cs rest : List Char} (h : after? c cs = some rest) :
    before c cs ++ c :: rest = cs := by
  induction cs with
  | nil => simp [after?] at h
  | cons d cs ih =>
    by_cases hd : d = c
    · simp_all [after?, before]
    · simp_all [after?, before]

/-- There is one way to cut a text at a character that the first part does not hold. -/
theorem cut_eq_iff {c : Char} {cs front rest : List Char} :
    before c cs = front ∧ after? c cs = some rest ↔ c ∉ front ∧ cs = front ++ c :: rest := by
  constructor
  · rintro ⟨rfl, h⟩
    exact ⟨not_mem_before c cs, (before_append_after h).symm⟩
  · rintro ⟨hNew, rfl⟩
    induction front with
    | nil => simp [before, after?]
    | cons d front ih =>
      obtain ⟨hOther, hRest⟩ := not_or.mp (mt List.mem_cons.mpr hNew)
      simpa [before, after?, Ne.symm hOther] using ih hRest

end TypeDiagram.Text

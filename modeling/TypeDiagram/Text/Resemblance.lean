/-!
How much two texts resemble each other. A longest run that both have is matched, the leftmost one in
the first text and then in the second, and the same is done with what is left of it on both sides
and with what is right of it. Texts resemble each other when the matched characters are at least
three fifths of both.
-/

namespace TypeDiagram.Text

variable {β : Type} [DecidableEq β]

def commonStart : List β → List β → Nat
  | x :: xs, y :: ys => if x = y then commonStart xs ys + 1 else 0
  | _, _ => 0

structure CommonRun where
  left : Nat
  right : Nat
  length : Nat
deriving DecidableEq, Repr

def CommonRun.longer (a b : CommonRun) : CommonRun := if a.length < b.length then b else a

def longestRun (xs ys : List β) : CommonRun :=
  let runs := (List.range xs.length).flatMap fun i =>
    (List.range ys.length).map fun j => ⟨i, j, commonStart (xs.drop i) (ys.drop j)⟩
  runs.foldl CommonRun.longer ⟨0, 0, 0⟩

/-- The number of characters that are matched, with at most `fuel` runs inside each other. -/
def matchedWithin : (fuel : Nat) → List β → List β → Nat
  | 0, _, _ => 0
  | fuel + 1, xs, ys =>
    let run := longestRun xs ys
    if run.length = 0 then 0
    else
      matchedWithin fuel (xs.take run.left) (ys.take run.right) + run.length +
        matchedWithin fuel (xs.drop (run.left + run.length)) (ys.drop (run.right + run.length))

/-- The number of characters that are matched; every run takes one from the first list. -/
def matched (xs ys : List β) : Nat := matchedWithin xs.length xs ys

def resembles (s t : String) : Bool :=
  3 * (s.length + t.length) ≤ 10 * matched s.toList t.toList

end TypeDiagram.Text

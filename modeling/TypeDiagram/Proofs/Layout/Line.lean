import TypeDiagram.Proofs.Layout.Route

/-! # Lines between points

The line through some points turns half way between any two that are not level. So it goes on no
other levels than theirs and on all of these, and it goes along the flow as they do: if they run
forward, so does the line, and if they run backward, it does too.
-/

namespace TypeDiagram.Layout

open Coordinate

variable {κ : Type}

def Section.points {α : Type} (sec : Section α) : List (Position α) :=
  sec.start :: (sec.bends ++ [sec.finish])

/-- Where the boxes of a chain stand. -/
def stops {α : Type} (boxes : Boxes α) (chain : List String) : List (Position α) :=
  chain.filterMap fun d => (boxes.get? d).map Box.position

structure Section.Leads {α : Type} [Coordinate α] (horizontal : Bool) (source target : Box α)
    (handle : Option Name) (between : List (Position α)) (sec : Section α) : Prop where
  start : sec.start = exitPoint horizontal source (source.fraction handle)
  finish : sec.finish = entryPoint horizontal target
  bends : sec.bends = Layout.bends horizontal (sec.start :: (between ++ [sec.finish]))

theorem leads_of_mem_sectionsOf {α : Type} [Coordinate α] {horizontal : Bool} {boxes : Boxes α}
    {r : Route} {chain : List String} {sec : Section α}
    (h : sec ∈ sectionsOf horizontal boxes r chain) : r.isLoop = false ∧ ∃ source target,
      boxes.get? r.source = some source ∧ boxes.get? r.target = some target ∧
        sec.Leads horizontal source target r.handle (stops boxes chain) := by
  unfold sectionsOf at h
  split at h
  · rename_i source target hSource hTarget
    split at h
    · cases h
    · rename_i hLoop
      rw [List.mem_singleton.mp h]
      exact ⟨Bool.eq_false_iff.mpr hLoop, source, target, hSource, hTarget, rfl, rfl, rfl⟩
  · cases h

/-! ## Levels -/

section Levels

variable {s : Spacing Rat} {a q : Position Rat}

theorem exists_level_of_mem_bends {points : List (Position Rat)} {p : Position Rat}
    (hp : p ∈ bends s.horizontal points) : ∃ q ∈ points, s.flank p = s.flank q := by
  induction points with
  | nil => cases hp
  | cons a rest ih =>
    cases rest with
    | nil => cases hp
    | cons b rest =>
      rcases List.mem_append.mp hp with hCorner | hLater
      · rcases corners_cases s.horizontal a b with ⟨hNone, _⟩ | ⟨c, d, hPair, hc, _, hd⟩
        · rw [hNone] at hCorner
          cases hCorner
        · rw [hPair, List.mem_cons, List.mem_singleton] at hCorner
          rcases hCorner with rfl | rfl
          · exact ⟨a, List.mem_cons_self, hc⟩
          · exact ⟨b, by simp, hd⟩
      · obtain ⟨q, hq, hLevel⟩ := ih hLater
        exact ⟨q, List.mem_cons_of_mem a hq, hLevel⟩

theorem exists_bend_of_mem (between : List (Position Rat)) (finish : Position Rat)
    (hLevel : s.flank q = s.flank a) {stop : Position Rat} (hStop : stop ∈ between) :
    ∃ p ∈ q :: bends s.horizontal (a :: (between ++ [finish])), s.flank p = s.flank stop := by
  induction between generalizing a q with
  | nil => cases hStop
  | cons b between ih =>
    obtain ⟨next, hNext, hSame⟩ : ∃ next ∈ q :: corners s.horizontal a b,
        s.flank next = s.flank b := by
      rcases corners_cases s.horizontal a b with ⟨_, hSame⟩ | ⟨c, d, hPair, _, _, hd⟩
      · exact ⟨q, List.mem_cons_self, hLevel.trans hSame⟩
      · exact ⟨d, by simp [hPair], hd⟩
    rw [List.cons_append, bends, ← List.cons_append]
    rcases List.mem_cons.mp hStop with rfl | hLater
    · exact ⟨next, List.mem_append_left _ hNext, hSame⟩
    · obtain ⟨p, hp, hFound⟩ := ih hSame hLater
      rcases List.mem_cons.mp hp with rfl | hBend
      · exact ⟨p, List.mem_append_left _ hNext, hFound⟩
      · exact ⟨p, List.mem_append_right _ hBend, hFound⟩

end Levels

/-! ## Along the flow -/

section Flow

variable {s : Spacing Rat}

theorem front_of_mem_corners {a b p : Position Rat} (hp : p ∈ corners s.horizontal a b) :
    s.front p = (s.front a + s.front b) / 2 := by
  unfold corners at hp
  unfold Spacing.front
  cases hAxis : s.horizontal with
  | true =>
    simp only [hAxis, if_true] at hp ⊢
    split at hp
    · cases hp
    · rw [List.mem_cons, List.mem_singleton] at hp
      rcases hp with rfl | rfl <;> rfl
  | false =>
    simp only [hAxis, Bool.false_eq_true, if_false] at hp ⊢
    split at hp
    · cases hp
    · rw [List.mem_cons, List.mem_singleton] at hp
      rcases hp with rfl | rfl <;> rfl

/-- An order in which the middle of two numbers is between them. -/
structure Midway (R : Rat → Rat → Prop) : Prop where
  refl : ∀ x, R x x
  trans : ∀ x y z, R x y → R y z → R x z
  before : ∀ x y, R x y → R x ((x + y) / 2)
  behind : ∀ x y, R x y → R ((x + y) / 2) y

theorem midway_le : Midway (· ≤ ·) :=
  ⟨fun x => le_refl x, fun _ _ _ => le_trans, fun x y h => by linarith, fun x y h => by linarith⟩

theorem midway_ge : Midway (· ≥ ·) :=
  ⟨fun x => le_refl x, fun _ _ _ => ge_trans, fun x y h => by linarith, fun x y h => by linarith⟩

variable {R : Rat → Rat → Prop}

/-- From a point before `a`, the corners between `a` and `b` lead to a point before `b`. -/
theorem isChain_front_corners (hR : Midway R) {a b q : Position Rat} {rest : List (Position Rat)}
    (hBefore : R (s.front q) (s.front a)) (hStep : R (s.front a) (s.front b))
    (hRest : ∀ p, R (s.front p) (s.front b) →
      (p :: rest).IsChain fun m n => R (s.front m) (s.front n)) :
    (q :: (corners s.horizontal a b ++ rest)).IsChain fun m n => R (s.front m) (s.front n) := by
  have hFront := fun p => front_of_mem_corners (s := s) (a := a) (b := b) (p := p)
  rcases corners_cases s.horizontal a b with ⟨hNone, _⟩ | ⟨c, d, hPair, _⟩
  · rw [hNone, List.nil_append]
    exact hRest q (hR.trans _ _ _ hBefore hStep)
  · rw [hPair] at hFront ⊢
    have hc := hFront c (by simp)
    have hd := hFront d (by simp)
    rw [List.cons_append, List.cons_append, List.nil_append, List.isChain_cons_cons,
      List.isChain_cons_cons, hc, hd]
    refine ⟨hR.trans _ _ _ hBefore (hR.before _ _ hStep), hR.refl _, hRest d ?_⟩
    rw [hd]
    exact hR.behind _ _ hStep

theorem isChain_front_bends (hR : Midway R) (between : List (Position Rat)) (finish : Position Rat)
    {a q : Position Rat} (hBefore : R (s.front q) (s.front a))
    (hPoints : (a :: (between ++ [finish])).IsChain fun m n => R (s.front m) (s.front n)) :
    (q :: (bends s.horizontal (a :: (between ++ [finish])) ++ [finish])).IsChain
      fun m n => R (s.front m) (s.front n) := by
  induction between generalizing a q with
  | nil =>
    change (q :: (corners s.horizontal a finish ++ [] ++ [finish])).IsChain _
    rw [List.append_nil]
    refine isChain_front_corners hR hBefore (List.isChain_cons_cons.mp hPoints).1 fun p hp => ?_
    exact List.isChain_cons_cons.mpr ⟨hp, List.isChain_singleton _⟩
  | cons b between ih =>
    rw [List.cons_append, List.isChain_cons_cons] at hPoints
    rw [List.cons_append, bends, List.append_assoc]
    exact isChain_front_corners hR hBefore hPoints.1 fun p hp => ih hp hPoints.2

end Flow

end TypeDiagram.Layout

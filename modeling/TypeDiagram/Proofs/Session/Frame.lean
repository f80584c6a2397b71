import TypeDiagram.Session.Run

/-! # The frame scheduler of a diagram

A diagram asks for nothing but the start of a pass, so its scheduler waits for one such frame or for
none, and a frame that runs starts exactly one pass.
-/

namespace TypeDiagram.Session

namespace FrameScheduler

/-- The frame that is pending, if any, starts one pass. -/
def Single (f : FrameScheduler Nat FrameTask) : Prop :=
  f.queue = if f.pending then [.startLayout] else []

variable {f : FrameScheduler Nat FrameTask}

theorem Single.request (h : f.Single) : (f.request .startLayout).Single := by
  unfold Single at h ⊢
  change (if f.queue.contains .startLayout then f.queue else f.queue ++ [.startLayout]) = _
  by_cases hPending : f.pending = true
  · rw [if_pos hPending] at h
    rw [h]
    rfl
  · rw [if_neg hPending] at h
    rw [h]
    rfl

theorem single_cancel (f : FrameScheduler Nat FrameTask) : f.cancel.Single := rfl

theorem runDue_of_not_pending (react : FrameTask → FrameReaction FrameTask)
    (h : f.due = none) (fuel : Nat) : runDue react fuel f = (f, []) := by
  cases fuel with
  | zero => rfl
  | succ fuel => rw [runDue, h]

theorem advance_of_not_due {time : Nat} (react : FrameTask → FrameReaction FrameTask)
    (h : ∀ due, f.due = some due → ¬ due < f.clock + time + f.resolution) :
    f.advance react time = ({ f with clock := f.clock + time }, []) := by
  change runDue _ (999 + 1) _ = _
  rw [runDue]
  cases hDue : f.due with
  | none => rfl
  | some due => simp only [h due hDue, if_false]

theorem Single.advance_of_due (h : f.Single) {time due : Nat} (hDue : f.due = some due)
    (hTime : due < f.clock + time + f.resolution) :
    f.advance (fun _ => ⟨[], false⟩) time =
      (cancel { f with clock := f.clock + time }, [.startLayout]) := by
  have hPending : f.pending = true := by rw [pending, hDue]; rfl
  have hQueue : f.queue = [.startLayout] := by rw [h, if_pos hPending]
  change runDue _ (999 + 1) _ = _
  rw [runDue]
  simp only [hDue, hTime, if_true, tick, hQueue, runAll, List.foldl_nil, Bool.false_eq_true,
    if_false]
  rw [runDue_of_not_pending _ rfl]
  rfl

theorem Single.advance_cases (h : f.Single) (time : Nat) :
    f.advance (fun _ => ⟨[], false⟩) time = ({ f with clock := f.clock + time }, []) ∨
      f.pending = true ∧ f.advance (fun _ => ⟨[], false⟩) time =
        (cancel { f with clock := f.clock + time }, [.startLayout]) := by
  by_cases hDue : ∃ due, f.due = some due ∧ due < f.clock + time + f.resolution
  · obtain ⟨due, hDue, hTime⟩ := hDue
    refine .inr ⟨?_, h.advance_of_due hDue hTime⟩
    rw [pending, hDue]
    rfl
  · exact .inl (advance_of_not_due _ fun due hSome hTime => hDue ⟨due, hSome, hTime⟩)

/-- A frame that is pending is due within an interval, and the clock tells times apart. -/
structure Punctual (f : FrameScheduler Nat FrameTask) : Prop where
  resolution : 0 < f.resolution
  due : ∀ due, f.due = some due → due ≤ f.clock + f.interval

theorem Punctual.request (h : f.Punctual) : (f.request .startLayout).Punctual where
  resolution := h.resolution
  due due hDue := by
    cases hOld : f.due with
    | none =>
      simp only [FrameScheduler.request, hOld, Option.getD_none, Option.some.injEq] at hDue
      exact Nat.le_of_eq hDue.symm
    | some old =>
      simp only [FrameScheduler.request, hOld, Option.getD_some, Option.some.injEq] at hDue
      exact hDue ▸ h.due old hOld

theorem Punctual.cancel (h : f.Punctual) : f.cancel.Punctual where
  resolution := h.resolution
  due _ hDue := by cases hDue

theorem Punctual.advance (h : f.Punctual) (hSingle : f.Single) :
    f.advance (fun _ => ⟨[], false⟩) f.interval =
      (FrameScheduler.cancel { f with clock := f.clock + f.interval },
        if f.pending then [.startLayout] else []) := by
  by_cases hPending : f.pending = true
  · obtain ⟨due, hDue⟩ := Option.isSome_iff_exists.mp hPending
    have hTime : due < f.clock + f.interval + f.resolution := by
      have hResolution := h.resolution
      have hSoon := h.due due hDue
      omega
    rw [hSingle.advance_of_due hDue hTime, if_pos hPending]
  · have hNone : f.due = none := by simpa [pending] using hPending
    have hQueue : f.queue = [] := by rw [hSingle, if_neg hPending]
    have hNotDue : ∀ due, f.due = some due → ¬ due < f.clock + f.interval + f.resolution := by
      rw [hNone]
      exact fun due hDue => nomatch hDue
    rw [advance_of_not_due _ hNotDue, if_neg hPending, FrameScheduler.cancel, hNone, hQueue]

end FrameScheduler

open Diagram FrameScheduler

variable {α : Type}

theorem frame_cases {s : Session α} (h : s.scheduler.Single) :
    (∃ clock, s.frame = { s with scheduler := { s.scheduler with clock } }) ∨
      s.scheduler.pending = true ∧ ∃ clock, s.frame =
        { s with scheduler := cancel { s.scheduler with clock } }.startPass := by
  unfold frame
  rcases h.advance_cases s.scheduler.interval with hAdvance | ⟨hPending, hAdvance⟩
  · rw [hAdvance]
    exact .inl ⟨_, rfl⟩
  · rw [hAdvance]
    exact .inr ⟨hPending, _, rfl⟩

theorem frame_eq {s : Session α} (h : s.scheduler.Punctual) (hSingle : s.scheduler.Single) :
    s.frame =
      let scheduler := cancel { s.scheduler with clock := s.scheduler.clock + s.scheduler.interval }
      if s.scheduler.pending then { s with scheduler }.startPass else { s with scheduler } := by
  unfold frame
  rw [h.advance hSingle]
  cases s.scheduler.pending <;> rfl

/-- A frame that was pending starts one pass, for the view as it is, and nothing is pending then. -/
theorem frame_starts {s : Session α} (h : s.scheduler.Punctual) (hSingle : s.scheduler.Single) :
    s.frame.scheduler.pending = false ∧
      (s.scheduler.pending = true → s.frame.passes = s.passes + 1 ∧
        s.frame.inFlight = s.inFlight ++ [s.capture (s.passes + 1)]) ∧
      (s.scheduler.pending = false →
        s.frame.passes = s.passes ∧ s.frame.inFlight = s.inFlight) := by
  rw [frame_eq h hSingle]
  cases s.scheduler.pending with
  | true => exact ⟨rfl, fun _ => ⟨rfl, rfl⟩, nofun⟩
  | false => exact ⟨rfl, nofun, fun _ => ⟨rfl, rfl⟩⟩

end TypeDiagram.Session

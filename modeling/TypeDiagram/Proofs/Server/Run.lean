import TypeDiagram.Proofs.Server.Answer

/-! # Runs of a server

Between two steps no diagram is at work, and an id belongs to the diagram that it was given to. So a
diagram that is deleted stays away, unless its id is given once more.
-/

namespace TypeDiagram

namespace Server

open Diagram

variable {server : Server} {id : String}

theorem get?_frame (server : Server) (id : String) :
    server.frame.diagrams.get? id =
      (server.diagrams.get? id).map (·.frameSettled layeredService) :=
  OrderedMap.get?_mapValues _ _ id

theorem Sound.frame (h : server.Sound) : server.frame.Sound where
  distinct := by
    rw [Server.frame, OrderedMap.keys_mapValues]
    exact h.distinct
  given id t hGet := by
    rw [get?_frame] at hGet
    obtain ⟨s, hOpen, _⟩ := Option.map_eq_some_iff.mp hGet
    exact h.given id s hOpen
  tended id t hGet := by
    rw [get?_frame] at hGet
    obtain ⟨s, hOpen, rfl⟩ := Option.map_eq_some_iff.mp hGet
    exact (h.tended id s hOpen).frameSettled layeredService

theorem Sound.step (h : server.Sound) (step : Step) : (server.step step).Sound := by
  cases step with
  | request r => exact h.of_outcome (h.answer_outcome r)
  | frame => exact h.frame

theorem sound_start (environment : Environment) (idOf : Nat → String) :
    (start environment idOf).Sound where
  distinct := List.nodup_nil
  given _ _ hGet := by cases hGet
  tended _ _ hGet := by cases hGet

theorem Sound.run (h : server.Sound) (steps : List Step) : (server.run steps).Sound := by
  induction steps generalizing server with
  | nil => exact h
  | cons step steps ih => exact ih (h.step step)

theorem Sound.succeeds_step (h : server.Sound) (step : Step) :
    Succeeds server (server.step step) := by
  cases step with
  | request r => exact (h.answer_outcome r).succeeds
  | frame => exact ⟨rfl, rfl, Nat.le_refl _⟩

theorem Sound.succeeds_run (h : server.Sound) (steps : List Step) :
    Succeeds server (server.run steps) := by
  induction steps generalizing server with
  | nil => exact succeeds_refl server
  | cons step steps ih => exact (h.succeeds_step step).trans (ih (h.step step))

theorem run_append (server : Server) (steps more : List Step) :
    server.run (steps ++ more) = (server.run steps).run more := List.foldl_append

/-- A diagram that is not open, and whose id is given to no other, is not found from then on. -/
theorem Sound.exchanges_of_none (h : server.Sound) (hNone : server.diagrams.get? id = none)
    {steps : List Step}
    (hNew : ∀ j, server.created ≤ j → j < (server.run steps).created → server.idOf j ≠ id) :
    ∀ e ∈ server.exchanges steps, ∀ r call, e.step = .request r →
      accept server.environment r = .ok (.diagram id call) →
      e.response = some .diagramNotFound := by
  induction steps generalizing server with
  | nil => exact fun e hIn => absurd hIn List.not_mem_nil
  | cons step steps ih =>
    have hStill : (server.step step).diagrams.get? id = none := by
      cases step with
      | frame => exact (get?_frame server id).trans (by rw [hNone]; rfl)
      | request r =>
        have hLater := ((h.step (.request r)).succeeds_run steps).created
        exact (h.answer_outcome r).get?_eq_none hNone fun hCreated =>
          hNew _ (Nat.le_refl _) (hCreated.trans_le hLater)
    intro e hIn r call hRequest hAccept
    rcases List.mem_cons.mp hIn with rfl | hIn
    · cases step with
      | frame => cases hRequest
      | request r =>
        cases hRequest
        simp only [exchange, Server.answer, hAccept, answerCall_of_none hNone]
    · refine ih (h.step step) hStill (fun j hj hLess => ?_) e hIn r call hRequest ?_
      · rw [(h.succeeds_step step).idOf]
        exact hNew j ((h.succeeds_step step).created.trans hj) hLess
      · rwa [(h.succeeds_step step).environment]

theorem Sound.exchanges_of_delete (h : server.Sound) {r : Request}
    (hAccept : accept server.environment r = .ok (.diagram id .delete))
    (hStatus : (server.answer r).2.status = 200) {steps : List Step}
    (hDistinct : Set.InjOn server.idOf {k | k < ((server.answer r).1.run steps).created}) :
    ∀ e ∈ (server.answer r).1.exchanges steps, ∀ later call, e.step = .request later →
      accept server.environment later = .ok (.diagram id call) →
      e.response = some .diagramNotFound := by
  obtain ⟨⟨k, hk, hId⟩, hGone⟩ := h.answer_of_delete hAccept hStatus
  have hNext : (server.answer r).1.Sound := h.step (.request r)
  have hSucceeds := (h.answer_outcome r).succeeds
  have hEarlier : k < (server.answer r).1.created := hk.trans_le hSucceeds.created
  rw [← hSucceeds.environment]
  refine hNext.exchanges_of_none hGone fun j hj hLess hSame => ?_
  rw [hSucceeds.idOf, ← hId] at hSame
  have hEqual : j = k :=
    hDistinct hLess (hEarlier.trans_le (hNext.succeeds_run steps).created) hSame
  exact absurd (hEqual ▸ hj) (Nat.not_le_of_lt hEarlier)

end Server

end TypeDiagram

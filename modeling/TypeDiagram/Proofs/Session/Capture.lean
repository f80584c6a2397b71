import TypeDiagram.Proofs.Session.Desk

/-! # What passes are started for

A pass in flight holds what the diagram showed when it was started or got to run, so what is true of
every view of a run is true of the inputs of its passes.
-/

namespace TypeDiagram.Session

open Diagram

variable {α : Type} [Coordinate α]

theorem mem_inFlight_step {s : Session α} {op : Operation α} (h : Works s op (s.step op))
    {p : Pass α} (hp : p ∈ (s.step op).inFlight) :
    p ∈ s.inFlight ∨ ∃ token, p = s.capture token := by
  change p ∈ (s.step op).desk.inFlight at hp
  cases h with
  | commits _ hDesk =>
    rw [hDesk, commit_desk] at hp
    exact .inl hp
  | applies q placed hApplies =>
    rw [hApplies.desk] at hp
    exact .inl (List.mem_filter.mp hp).1
  | requests _ _ _ hDesk | waits _ _ _ hDesk =>
    rw [hDesk] at hp
    exact .inl hp
  | starts _ _ _ hDesk =>
    rw [hDesk] at hp
    exact (List.mem_append.mp hp).imp id fun hNew => ⟨_, List.mem_singleton.mp hNew⟩
  | begins token _ _ hDesk =>
    rw [hDesk] at hp
    obtain ⟨q, hq, rfl⟩ := List.mem_map.mp hp
    split
    · exact .inr ⟨token, rfl⟩
    · exact .inl hq
  | ends _ _ _ hDesk =>
    rw [hDesk] at hp
    exact .inl (List.mem_filter.mp hp).1
  | closes _ _ hDesk =>
    rw [hDesk] at hp
    cases hp

theorem captured_run (options : ViewOptions) (layoutOptions : LayoutOptions)
    (ops : List (Operation α)) {p : Pass α}
    (hp : p ∈ ((create options layoutOptions).run ops).inFlight) :
    ∃ before token, before <+: ops ∧
      p = ((create options layoutOptions).run before).capture token := by
  induction ops using List.reverseRecOn with
  | nil => cases hp
  | append_singleton ops op ih =>
    rw [run_concat] at hp
    rcases mem_inFlight_step (run_works options layoutOptions ops op) hp with hOld | ⟨token, hNew⟩
    · obtain ⟨before, token, hPrefix, hSame⟩ := ih hOld
      exact ⟨before, token, hPrefix.trans (List.prefix_append ops [op]), hSame⟩
    · exact ⟨ops, token, List.prefix_append ops [op], hNew⟩

end TypeDiagram.Session

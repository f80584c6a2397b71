import TypeDiagram.Proofs.Session.Ledger

/-! # Only the newest pass acts

A pass is merged into the view exactly if it succeeds while it is still the newest one. A pass that
settles in any other way ends without a trace in the view, the pins and the caches.
-/

namespace TypeDiagram.Session

open Diagram

variable {α : Type} [Coordinate α]

def Succeeds (s : Session α) (token : Nat) (service : Service α) : Prop :=
  ∃ p ∈ s.inFlight, p.token = token ∧ ∃ placed, p.result service s.layoutOptions = .ok placed

/-- The pass with the given number is started in the run and succeeds when it settles; from its
start to then it is not ended and no other pass is started. -/
def SucceedsAsNewest (start : Session α) (ops : List (Operation α)) (token : Nat) : Prop :=
  ∃ before op between service after,
    ops = before ++ op :: between ++ .settle token service :: after ∧
    Starts (start.run before) op token ∧
    (∀ other ∈ between, other.ends token = false) ∧
    Throughout (fun s other => ∀ next, ¬ Starts s other next) (start.run (before ++ [op])) between ∧
    Succeeds (start.run (before ++ op :: between)) token service

variable {s : Session α} {op : Operation α}

theorem applies_of_succeeds (h : Ledger s) {token : Nat} {service : Service α}
    (hSucceeds : Succeeds s token service) (hNewest : token = s.passes) :
    ∃ p placed, p.token = token ∧ Applies s (.settle token service) p placed := by
  obtain ⟨p, hIn, rfl, placed, hResult⟩ := hSucceeds
  exact ⟨p, placed, rfl, ⟨service, rfl, hResult⟩, h.find?_token hIn, hNewest⟩

theorem Applies.succeeds {p : Pass α} {placed : List (Node α)} (h : Applies s op p placed) :
    ∃ service, op = .settle p.token service ∧ Succeeds s p.token service := by
  obtain ⟨service, hOp, hResult⟩ := h.settles
  exact ⟨service, hOp, p, List.mem_of_find?_eq_some h.inFlight, rfl, placed, hResult⟩

/-- The pass that was started by a step is the newest one as long as no other is started. -/
theorem newest_iff (options : ViewOptions) (layoutOptions : LayoutOptions)
    {before between : List (Operation α)} {op : Operation α} {token : Nat}
    (h : Starts ((create options layoutOptions).run before) op token) :
    token = ((create options layoutOptions).run (before ++ op :: between)).passes ↔
      Throughout (fun s other => ∀ next, ¬ Starts s other next)
        ((create options layoutOptions).run (before ++ [op])) between := by
  have hToken : ((create options layoutOptions).run (before ++ [op])).passes = token := by
    rw [run_concat]
    exact h.2
  rw [← (passes_run_eq_iff (single_run options layoutOptions _) between).2, ← run_append, hToken,
    ← List.append_cons, eq_comm]

theorem succeedsAsNewest_concat (options : ViewOptions) (layoutOptions : LayoutOptions)
    (ops : List (Operation α)) (last : Operation α) (token : Nat) :
    SucceedsAsNewest (create options layoutOptions) (ops ++ [last]) token ↔
      SucceedsAsNewest (create options layoutOptions) ops token ∨
        ∃ p placed, p.token = token ∧
          Applies ((create options layoutOptions).run ops) last p placed := by
  constructor
  · rintro ⟨before, op, between, service, after, hOps, hStarts, hAlive, hNone, hSucceeds⟩
    rcases concat_eq_append_cons_iff.mp hOps with ⟨rfl, rfl, _⟩ | ⟨after, hEarlier, _⟩
    · have hNewest := (newest_iff options layoutOptions hStarts).mpr hNone
      exact .inr (applies_of_succeeds (ledger_run options layoutOptions _) hSucceeds hNewest)
    · exact .inl ⟨before, op, between, service, after, hEarlier, hStarts, hAlive, hNone, hSucceeds⟩
  · rintro (⟨before, op, between, service, after, rfl, hStarts, hAlive, hNone, hSucceeds⟩ |
      ⟨p, placed, rfl, hApplies⟩)
    · exact ⟨before, op, between, service, after ++ [last], by simp, hStarts, hAlive, hNone,
        hSucceeds⟩
    · obtain ⟨before, op, between, rfl, hStarts, hAlive⟩ :=
        (mem_tokens_run options layoutOptions ops p.token).mp hApplies.token_mem
      obtain ⟨service, rfl, hSucceeds⟩ := hApplies.succeeds
      exact ⟨before, op, between, service, [], rfl, hStarts, hAlive,
        (newest_iff options layoutOptions hStarts).mp hApplies.newest, hSucceeds⟩

theorem mem_appliedTokens_run (options : ViewOptions) (layoutOptions : LayoutOptions)
    (ops : List (Operation α)) (token : Nat) :
    token ∈ ((create options layoutOptions).run ops).appliedTokens ↔
      SucceedsAsNewest (create options layoutOptions) ops token := by
  induction ops using List.reverseRecOn with
  | nil =>
    constructor
    · intro hIn
      cases hIn
    · rintro ⟨before, op, between, service, after, hOps, _⟩
      simp at hOps
  | append_singleton ops last ih =>
    rw [succeedsAsNewest_concat, ← ih, run_concat]
    rcases applications_step (run_works options layoutOptions ops last) with
      ⟨p, placed, hApplies, _, hLog⟩ | ⟨hNone, _, hLog⟩
    · rw [appliedTokens_of_applications hLog, List.mem_append]
      apply or_congr_right
      change token ∈ [p.token] ↔ _
      rw [List.mem_singleton]
      constructor
      · rintro rfl
        exact ⟨p, placed, rfl, hApplies⟩
      · rintro ⟨q, _, rfl, hAlso⟩
        exact hAlso.token_eq hApplies
    · rw [appliedTokens, hLog, ← appliedTokens, or_iff_left]
      rintro ⟨p, placed, _, hApplies⟩
      exact hNone p placed hApplies

/-- A pass is applied exactly if it succeeds as the newest one, so the numbers of the applied passes
increase. All else that a pass does when it settles, and an edit of a node that is not committed,
leave the state as it was, but for the passes in flight and the news of a failure. -/
theorem only_newest_pass_acts (options : ViewOptions) (layoutOptions : LayoutOptions)
    (ops : List (Operation α)) :
    let start := create options layoutOptions
    let s := start.run ops
    (∀ token, token ∈ s.appliedTokens ↔ SucceedsAsNewest start ops token) ∧
      s.appliedTokens.Pairwise (· < ·) ∧
      applicationsOf s.log =
        s.appliedTokens.map (fun token => ⟨.layoutApplied, none, .applied token⟩) ∧
      s.layoutsApplied = (applicationsOf s.log).length ∧
      (∀ token service, token = s.passes → Succeeds s token service →
        ∃ p ∈ s.inFlight, p.token = token ∧ ∃ placed,
          p.result service s.layoutOptions = .ok placed ∧
          s.step (.settle token service) = (s.without token).applyPass p placed) ∧
      (∀ token service, ¬ (token = s.passes ∧ Succeeds s token service) →
        Idles s token service (s.step (.settle token service))) ∧
      (∀ token, s.step (.cancel token) = s.without token) ∧
      (∀ id, id ∉ s.nodes.map Node.id → ∀ size position,
        s.measure id size = (s, false) ∧ s.move id position = (s, false)) := by
  intro start s
  have h := ledger_run options layoutOptions ops
  refine ⟨mem_appliedTokens_run options layoutOptions ops, h.increasing, h.told, h.counted,
    ?_, ?_, fun _ => rfl, ?_⟩
  · intro token service hNewest hSucceeds
    obtain ⟨p, placed, rfl, hApplies⟩ := applies_of_succeeds h hSucceeds hNewest
    obtain ⟨_, hOp, hResult⟩ := hApplies.settles
    obtain ⟨_, rfl⟩ := Operation.settle.inj hOp
    exact ⟨p, List.mem_of_find?_eq_some hApplies.inFlight, rfl, placed, hResult, hApplies.step_eq⟩
  · intro token service hNot
    rcases settle_cases s token service with hIdle | ⟨p, placed, hApplies⟩
    · exact hIdle
    · obtain ⟨other, hOp, hSucceeds⟩ := hApplies.succeeds
      obtain ⟨rfl, rfl⟩ := Operation.settle.inj hOp
      exact absurd ⟨hApplies.newest, hSucceeds⟩ hNot
  · intro id hOut size position
    exact ⟨step_measure_of_not_mem hOut size, step_move_of_not_mem hOut position⟩

end TypeDiagram.Session

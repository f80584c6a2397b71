import TypeDiagram.Proofs.Session.Desk
import TypeDiagram.Proofs.Sequence

/-! # The numbers of layout passes

Passes are numbered in the order of their starts. A number is in flight from the start of its pass
to the first step that ends it, and never again. A pass is applied only while its number is the last
one that was given out, so the numbers of the applied passes increase along a run.
-/

namespace TypeDiagram.Session

open Diagram

variable {α : Type}

def tokens (s : Session α) : List Nat := s.inFlight.map Pass.token

def appliedToken? (e : Event Notice) : Option Nat :=
  match e.data with
  | .applied token => some token
  | _ => none

/-- The numbers of the passes whose application was told, in the order of the events. -/
def appliedTokens (s : Session α) : List Nat := (applicationsOf s.log).filterMap appliedToken?

theorem filter_ends_of_none {op : Operation α} (h : ∀ token, op.ends token = false)
    (tokens : List Nat) : (tokens.filter fun token => !op.ends token) = tokens :=
  List.filter_eq_self.mpr fun token _ => by rw [h token]; rfl

theorem filter_ends_of_one {op : Operation α} {token : Nat}
    (h : ∀ other, op.ends other = (token == other)) (passes : List (Pass α)) :
    (passes.filter fun p => p.token != token).map Pass.token =
      (passes.map Pass.token).filter fun other => !op.ends other := by
  rw [List.filter_map]
  congr 1
  apply List.filter_congr
  intro p _
  rw [Function.comp_apply, h, Bool.beq_comm]
  rfl

theorem appliedTokens_of_applications {s t : Session α} {told : List (Event Notice)}
    (h : applicationsOf t.log = applicationsOf s.log ++ told) :
    t.appliedTokens = s.appliedTokens ++ told.filterMap appliedToken? := by
  rw [appliedTokens, h, List.filterMap_append, appliedTokens]

/-- The numbers in flight are distinct, and the applied ones increase and are never in flight again.
-/
structure Ledger (s : Session α) : Prop where
  distinct : s.tokens.Nodup
  started : ∀ token ∈ s.tokens, token ≤ s.passes
  applied : ∀ token ∈ s.appliedTokens, token ≤ s.passes ∧ token ∉ s.tokens
  increasing : s.appliedTokens.Pairwise (· < ·)
  told : applicationsOf s.log =
    s.appliedTokens.map fun token => ⟨.layoutApplied, none, .applied token⟩
  counted : s.layoutsApplied = (applicationsOf s.log).length

theorem Ledger.find?_token {s : Session α} (h : Ledger s) {p : Pass α} (hIn : p ∈ s.inFlight) :
    (s.inFlight.find? fun q => q.token == p.token) = some p :=
  find?_eq_some_of_nodup_map h.distinct hIn

variable [Coordinate α]

def Starts (s : Session α) (op : Operation α) (token : Nat) : Prop :=
  token = s.passes + 1 ∧ (s.step op).passes = token

variable {s : Session α} {op : Operation α}

/-! ## What a step does to the numbers -/

theorem tokens_step (h : Works s op (s.step op)) :
    ((s.step op).passes = s.passes ∧
      (s.step op).tokens = s.tokens.filter fun token => !op.ends token) ∨
    (∀ token, op.ends token = false) ∧ (s.step op).passes = s.passes + 1 ∧
      (s.step op).tokens = s.tokens ++ [s.passes + 1] := by
  change ((s.step op).desk.passes = _ ∧ (s.step op).desk.inFlight.map Pass.token = _) ∨
    _ ∧ (s.step op).desk.passes = _ ∧ (s.step op).desk.inFlight.map Pass.token = _
  cases h with
  | commits hEnds hDesk =>
    rw [hDesk, commit_desk, filter_ends_of_none hEnds]
    exact .inl ⟨rfl, rfl⟩
  | applies p placed hApplies =>
    obtain ⟨service, hOp, _⟩ := hApplies.settles
    rw [hApplies.desk, commit_desk]
    exact .inl ⟨rfl, filter_ends_of_one (fun _ => by rw [hOp]; rfl) s.inFlight⟩
  | requests _ hEnds _ hDesk | waits _ hEnds _ hDesk =>
    rw [hDesk, filter_ends_of_none hEnds]
    exact .inl ⟨rfl, rfl⟩
  | starts _ hEnds _ hDesk =>
    rw [hDesk]
    exact .inr ⟨hEnds, rfl, by simp [tokens, capture]⟩
  | begins token hEnds _ hDesk =>
    rw [hDesk, filter_ends_of_none hEnds]
    refine .inl ⟨rfl, ?_⟩
    change (s.inFlight.map _).map _ = s.inFlight.map _
    rw [List.map_map]
    apply List.map_congr_left
    intro p _
    by_cases hToken : p.token = token <;> simp [hToken, capture]
  | ends token hOp _ hDesk =>
    rw [hDesk]
    have hEnds : ∀ other, op.ends other = (token == other) := by
      rcases hOp with rfl | ⟨service, rfl, _⟩ <;> exact fun _ => rfl
    exact .inl ⟨rfl, filter_ends_of_one hEnds s.inFlight⟩
  | closes hOp _ hDesk =>
    rw [hDesk, hOp]
    exact .inl ⟨rfl, by simp [Operation.ends]⟩

/-- A pass is in flight after a step if it was before and is not ended, or if it is started. -/
theorem mem_tokens_step (h : Works s op (s.step op)) (token : Nat) :
    token ∈ (s.step op).tokens ↔
      (token ∈ s.tokens ∧ op.ends token = false) ∨ Starts s op token := by
  unfold Starts
  rcases tokens_step h with ⟨hPasses, hTokens⟩ | ⟨hEnds, hPasses, hTokens⟩
  · rw [hPasses, hTokens, List.mem_filter, Bool.not_eq_true']
    constructor
    · exact .inl
    · rintro (hOld | ⟨hNext, hSame⟩)
      · exact hOld
      · omega
  · rw [hPasses, hTokens, List.mem_append, List.mem_singleton]
    constructor
    · rintro (hOld | hNew)
      · exact .inl ⟨hOld, hEnds token⟩
      · exact .inr ⟨hNew, hNew.symm⟩
    · rintro (⟨hOld, _⟩ | ⟨hNew, _⟩)
      · exact .inl hOld
      · exact .inr hNew

/-- A step applies the newest pass and tells so once, or tells of no application. -/
theorem applications_step (h : Works s op (s.step op)) :
    (∃ p placed, Applies s op p placed ∧ (s.step op).layoutsApplied = s.layoutsApplied + 1 ∧
      applicationsOf (s.step op).log =
        applicationsOf s.log ++ [⟨.layoutApplied, none, .applied p.token⟩]) ∨
    (∀ p placed, ¬ Applies s op p placed) ∧ (s.step op).layoutsApplied = s.layoutsApplied ∧
      applicationsOf (s.step op).log = applicationsOf s.log := by
  by_cases hApplies : ∃ p placed, Applies s op p placed
  · obtain ⟨p, placed, hApplies⟩ := hApplies
    refine .inl ⟨p, placed, hApplies, ?_, ?_⟩
    · exact congrArg Desk.layoutsApplied hApplies.desk
    · exact congrArg Desk.applications hApplies.desk
  · refine .inr ⟨fun p placed h => hApplies ⟨p, placed, h⟩, ?_⟩
    change (s.step op).desk.layoutsApplied = _ ∧ (s.step op).desk.applications = _
    cases h with
    | commits _ hDesk =>
      rw [hDesk, commit_desk]
      exact ⟨rfl, rfl⟩
    | applies p placed h => exact absurd ⟨p, placed, h⟩ hApplies
    | requests _ _ _ hDesk | starts _ _ _ hDesk | begins _ _ _ hDesk | ends _ _ _ hDesk
    | closes _ _ hDesk | waits _ _ _ hDesk =>
      rw [hDesk]
      exact ⟨rfl, rfl⟩

/-! ## The numbers along a run -/

theorem passes_le_step (h : Works s op (s.step op)) : s.passes ≤ (s.step op).passes := by
  rcases tokens_step h with ⟨hPasses, _⟩ | ⟨_, hPasses, _⟩ <;> omega

theorem not_mem_tokens_step (h : Works s op (s.step op)) {token : Nat} (hLe : token ≤ s.passes)
    (hOut : token ∉ s.tokens ∨ op.ends token = true) : token ∉ (s.step op).tokens := by
  rw [mem_tokens_step h]
  rintro (⟨hIn, hEnds⟩ | ⟨hNext, _⟩)
  · rcases hOut with hOut | hOut
    · exact hOut hIn
    · rw [hEnds] at hOut
      cases hOut
  · omega

theorem Applies.token_mem {p : Pass α} {placed : List (Node α)} (h : Applies s op p placed) :
    p.token ∈ s.tokens :=
  List.mem_map_of_mem (List.mem_of_find?_eq_some h.inFlight)

theorem Applies.ends {p : Pass α} {placed : List (Node α)} (h : Applies s op p placed) :
    op.ends p.token = true := by
  obtain ⟨service, hOp, _⟩ := h.settles
  rw [hOp]
  exact beq_self_eq_true p.token

theorem Applies.token_eq {p q : Pass α} {placed placed' : List (Node α)}
    (h : Applies s op p placed) (h' : Applies s op q placed') : p.token = q.token := by
  obtain ⟨service, hOp, _⟩ := h.settles
  obtain ⟨service', hOp', _⟩ := h'.settles
  exact (Operation.settle.inj (hOp.symm.trans hOp')).1

theorem Ledger.distinct_step (h : Ledger s) (hWorks : Works s op (s.step op)) :
    (s.step op).tokens.Nodup := by
  rcases tokens_step hWorks with ⟨_, hTokens⟩ | ⟨_, _, hTokens⟩
  · rw [hTokens]
    exact h.distinct.filter _
  · have hFresh : s.passes + 1 ∉ s.tokens := fun hIn => by
      have := h.started _ hIn
      omega
    rw [hTokens, ← List.concat_eq_append]
    exact h.distinct.concat hFresh

theorem Ledger.started_step (h : Ledger s) (hWorks : Works s op (s.step op)) :
    ∀ token ∈ (s.step op).tokens, token ≤ (s.step op).passes := by
  intro token hIn
  rcases (mem_tokens_step hWorks token).mp hIn with ⟨hOld, _⟩ | ⟨_, hPasses⟩
  · exact Nat.le_trans (h.started token hOld) (passes_le_step hWorks)
  · exact Nat.le_of_eq hPasses.symm

theorem Ledger.applied_before (h : Ledger s) (hWorks : Works s op (s.step op)) :
    ∀ token ∈ s.appliedTokens, token ≤ (s.step op).passes ∧ token ∉ (s.step op).tokens := by
  intro token hToken
  obtain ⟨hLe, hOut⟩ := h.applied token hToken
  exact ⟨Nat.le_trans hLe (passes_le_step hWorks), not_mem_tokens_step hWorks hLe (.inl hOut)⟩

theorem Ledger.step (h : Ledger s) (hWorks : Works s op (s.step op)) : Ledger (s.step op) := by
  have hBefore := h.applied_before hWorks
  rcases applications_step hWorks with ⟨p, placed, hApplies, hCount, hLog⟩ | ⟨_, hCount, hLog⟩
  · have hApplied : (s.step op).appliedTokens = s.appliedTokens ++ [p.token] :=
      appliedTokens_of_applications hLog
    refine ⟨h.distinct_step hWorks, h.started_step hWorks, ?_, ?_, ?_, ?_⟩
    · intro token hToken
      rw [hApplied, List.mem_append, List.mem_singleton] at hToken
      rcases hToken with hOld | rfl
      · exact hBefore token hOld
      · have hLe : p.token ≤ s.passes := Nat.le_of_eq hApplies.newest
        exact ⟨Nat.le_trans hLe (passes_le_step hWorks),
          not_mem_tokens_step hWorks hLe (.inr hApplies.ends)⟩
    · rw [hApplied, List.pairwise_append]
      refine ⟨h.increasing, List.pairwise_singleton _ _, ?_⟩
      intro earlier hEarlier token hToken
      obtain ⟨hLe, hOut⟩ := h.applied earlier hEarlier
      have hNe : earlier ≠ p.token := fun hSame => hOut (hSame ▸ hApplies.token_mem)
      have hNewest := hApplies.newest
      rw [List.mem_singleton.mp hToken]
      omega
    · rw [hApplied, hLog, h.told, List.map_append]
      rfl
    · rw [hCount, hLog, h.counted, List.length_append]
      rfl
  · have hApplied : (s.step op).appliedTokens = s.appliedTokens := by
      rw [appliedTokens, hLog, appliedTokens]
    refine ⟨h.distinct_step hWorks, h.started_step hWorks, ?_, ?_, ?_, ?_⟩
    · rw [hApplied]
      exact hBefore
    · rw [hApplied]
      exact h.increasing
    · rw [hApplied, hLog, h.told]
    · rw [hCount, hLog, h.counted]

theorem ledger_run (options : ViewOptions) (layoutOptions : LayoutOptions)
    (ops : List (Operation α)) : Ledger ((create options layoutOptions).run ops) := by
  induction ops using List.reverseRecOn with
  | nil =>
    refine ⟨List.nodup_nil, ?_, ?_, List.Pairwise.nil, rfl, rfl⟩
    · intro token hIn
      cases hIn
    · intro token hIn
      cases hIn
  | append_singleton ops op ih =>
    rw [run_concat]
    exact ih.step (run_works options layoutOptions ops op)

/-! ## The life of a pass -/

theorem mem_tokens_run (options : ViewOptions) (layoutOptions : LayoutOptions)
    (ops : List (Operation α)) (token : Nat) :
    token ∈ ((create options layoutOptions).run ops).tokens ↔
      ∃ before op between, ops = before ++ op :: between ∧
        Starts ((create options layoutOptions).run before) op token ∧
        ∀ other ∈ between, other.ends token = false := by
  induction ops using List.reverseRecOn with
  | nil => simp [run, create, tokens]
  | append_singleton ops last ih =>
    rw [run_concat, mem_tokens_step (run_works options layoutOptions ops last), ih]
    constructor
    · rintro (⟨⟨before, op, between, rfl, hStarts, hAlive⟩, hLast⟩ | hStarts)
      · refine ⟨before, op, between ++ [last], by simp, hStarts, ?_⟩
        intro other hOther
        rcases List.mem_append.mp hOther with hEarlier | hSame
        · exact hAlive other hEarlier
        · rwa [List.mem_singleton.mp hSame]
      · exact ⟨ops, last, [], rfl, hStarts, by simp⟩
    · rintro ⟨before, op, between, hOps, hStarts, hAlive⟩
      rcases concat_eq_append_cons_iff.mp hOps with ⟨rfl, rfl, _⟩ | ⟨rest, hEarlier, rfl⟩
      · exact .inr hStarts
      · refine .inl ⟨⟨before, op, rest, hEarlier, hStarts, fun other hOther => ?_⟩, ?_⟩
        · exact hAlive other (List.mem_append_left _ hOther)
        · exact hAlive last (by simp)

theorem passes_run_eq_iff (h : s.scheduler.Single) (ops : List (Operation α)) :
    s.passes ≤ (s.run ops).passes ∧ ((s.run ops).passes = s.passes ↔
      Throughout (fun s other => ∀ next, ¬ Starts s other next) s ops) := by
  -- The number never falls, so it cannot return to its value once a step has raised it.
  induction ops generalizing s with
  | nil => exact ⟨Nat.le_refl _, by simp [run, Throughout]⟩
  | cons op ops ih =>
    obtain ⟨hLe, hIff⟩ := ih (step_single h op)
    change s.passes ≤ ((s.step op).run ops).passes ∧
      (((s.step op).run ops).passes = s.passes ↔ (∀ next, ¬ Starts s op next) ∧ _)
    rw [← hIff]
    unfold Starts
    rcases tokens_step (step_works h op) with ⟨hPasses, _⟩ | ⟨_, hPasses, _⟩
    · refine ⟨by omega, ?_, ?_⟩
      · intro hSame
        exact ⟨fun next hNext => by omega, by omega⟩
      · rintro ⟨_, hSame⟩
        omega
    · refine ⟨by omega, ?_, ?_⟩
      · intro hSame
        omega
      · rintro ⟨hNone, _⟩
        exact absurd ⟨rfl, hPasses⟩ (hNone (s.passes + 1))

end TypeDiagram.Session

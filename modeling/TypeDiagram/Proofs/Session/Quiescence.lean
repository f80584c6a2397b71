import TypeDiagram.Proofs.Session.Answer
import TypeDiagram.Proofs.Session.Trigger

/-! # A diagram that is left alone comes to rest

When nobody acts on a diagram, frames pass and the passes in flight settle, in any order. The
service that draws in layers gives back the sizes it was sent, so no answer asks for another layout.
The frame that is pending starts one more pass, and once that has settled too, nothing is left that
could change the diagram.
-/

namespace TypeDiagram.Session

open Diagram

variable {α : Type}

def Operation.isFrame : Operation α → Bool
  | .frame => true
  | _ => false

theorem Operation.isFrame_iff (op : Operation α) : op.isFrame = true ↔ op = .frame := by
  cases op <;> simp [isFrame]

theorem isEmpty_inFlight_iff (s : Session α) :
    s.inFlight.isEmpty = true ↔ ∀ token, token ∉ s.tokens := by
  rw [List.isEmpty_iff, ← List.map_eq_nil_iff (f := Pass.token), List.eq_nil_iff_forall_not_mem]
  rfl

/-- How many turns the diagram is waited for at most: one for the passes in flight, and two for the
frame that is pending and the pass that it starts. -/
def turnsLeft (s : Session α) : Nat :=
  (!s.inFlight.isEmpty).toNat + 2 * s.scheduler.pending.toNat

theorem turnsLeft_le (s : Session α) : turnsLeft s ≤ 3 := by
  unfold turnsLeft
  cases s.inFlight.isEmpty <;> cases s.scheduler.pending <;> decide

theorem turnsLeft_eq_zero_iff (s : Session α) : turnsLeft s = 0 ↔ s.state = .idle := by
  rw [state_eq_idle_iff, turnsLeft, ← List.isEmpty_iff]
  cases s.inFlight.isEmpty <;> cases s.scheduler.pending <;> simp

variable [Coordinate α]

/-- The operation comes about with nobody acting: time passes, or a pass gets to run or settles. -/
def Operation.Quiet : Operation α → Prop
  | .frame | .begin _ => True
  | .settle token service => (Operation.settle token service).Layered
  | _ => False

def Reachable (s : Session α) : Prop :=
  ∃ options layoutOptions ops, s = (create options layoutOptions).run ops

/-- All that was left to do is done: the passes in flight have settled, and so has the pass that the
pending frame starts. -/
def Finished (s : Session α) (quiet : List (Operation α)) : Prop :=
  (∀ token ∈ s.tokens, ∃ op ∈ quiet, op.ends token = true) ∧
    (s.scheduler.pending = true → ∃ before after, quiet = before ++ .frame :: after ∧
      ∃ op ∈ after, op.ends (s.passes + 1) = true)

/-- One turn of waiting for the diagram: the passes that are in flight settle, or else a frame
interval passes. Other passes may be started and settle meanwhile. -/
def Turn (s : Session α) (quiet : List (Operation α)) : Prop :=
  (∀ op ∈ quiet, op.Quiet) ∧
    (if s.inFlight.isEmpty then .frame ∈ quiet
      else ∀ token ∈ s.tokens, ∃ op ∈ quiet, op.ends token = true)

def Turns : Session α → List (List (Operation α)) → Prop
  | _, [] => True
  | s, turn :: turns => Turn s turn ∧ Turns (s.run turn) turns

variable {s : Session α} {op : Operation α} {quiet : List (Operation α)}

theorem Reachable.run (h : Reachable s) (ops : List (Operation α)) : Reachable (s.run ops) := by
  obtain ⟨options, layoutOptions, before, rfl⟩ := h
  exact ⟨options, layoutOptions, before ++ ops, (run_append _ _ _).symm⟩

theorem Reachable.step (h : Reachable s) (op : Operation α) : Reachable (s.step op) := h.run [op]

theorem Reachable.works (h : Reachable s) (op : Operation α) : Works s op (s.step op) := by
  obtain ⟨options, layoutOptions, ops, rfl⟩ := h
  exact run_works options layoutOptions ops op

variable [LawfulCoordinate α] [LawfulMagnitude α]

/-! ## Quiet steps -/

/-- The answer to a pass has the sizes that were sent, and a size that was measured since then is
kept, so no answer asks for a layout. -/
theorem Mirrors.spares_settle {built : List Model} {past : String → Prop} (h : Mirrors built past s)
    (hDistinct : ∀ p ∈ s.inFlight, (p.nodes.map Node.id).Nodup) {token : Nat} {service : Service α}
    (hLayered : (Operation.settle token service).Layered) : Spares s (.settle token service) := by
  by_cases hCommits : Commits s (.settle token service)
  · have ⟨p, placed, hApplies⟩ := hCommits
    have hNodup := hDistinct p (List.mem_of_find?_eq_some hApplies.inFlight)
    have hSizes := arrange_sizes hNodup (hApplies.layered hLayered)
    apply h.spares_of_adjusts hCommits hApplies.adjusts
    intro n _
    exact sameSize_symm (merged_size hNodup hSizes n)
  · exact fun f => congrArg Desk.scheduler (idles_of_not_commits hCommits f).desk

theorem Reachable.spares_settle (h : Reachable s) {token : Nat} {service : Service α}
    (hLayered : (Operation.settle token service).Layered) : Spares s (.settle token service) := by
  obtain ⟨options, layoutOptions, ops, rfl⟩ := h
  exact (mirrors_run options layoutOptions ops).spares_settle
    (fun _ hp => nodup_captured_run options layoutOptions ops hp) hLayered

theorem Reachable.quiet_step (h : Reachable s) (hQuiet : op.Quiet) :
    (s.step op).scheduler.pending = (s.scheduler.pending && !op.isFrame) ∧
      (s.step op).passes = s.passes + (s.scheduler.pending && op.isFrame).toNat := by
  cases op with
  | frame =>
    obtain ⟨options, layoutOptions, ops, rfl⟩ := h
    obtain ⟨hAfter, hStarts, hRests⟩ := frame_starts (punctual_run options layoutOptions ops)
      (single_run options layoutOptions ops)
    rw [Session.step, hAfter]
    cases hPending : ((create options layoutOptions).run ops).scheduler.pending with
    | true => exact ⟨rfl, (hStarts hPending).1⟩
    | false => exact ⟨rfl, (hRests hPending).1⟩
  | begin token =>
    constructor
    · exact (Bool.and_true _).symm
    · exact congrArg (s.passes + ·.toNat) (Bool.and_false _).symm
  | settle token service =>
    constructor
    · rw [(h.spares_settle hQuiet).scheduler_eq]
      exact (Bool.and_true _).symm
    · rw [(step_of_waits rfl s).2]
      exact congrArg (s.passes + ·.toNat) (Bool.and_false _).symm
  | _ => exact hQuiet.elim

theorem Reachable.mem_tokens_step (h : Reachable s) (hQuiet : op.Quiet) (token : Nat) :
    token ∈ (s.step op).tokens ↔ (token ∈ s.tokens ∧ op.ends token = false) ∨
      (s.scheduler.pending = true ∧ op = .frame) ∧ token = s.passes + 1 := by
  rw [Session.mem_tokens_step (h.works op), Starts, (h.quiet_step hQuiet).2, ← op.isFrame_iff,
    ← Bool.and_eq_true]
  apply or_congr_right
  cases s.scheduler.pending && op.isFrame with
  | true =>
    rw [Bool.toNat_true]
    exact ⟨fun hNext => ⟨rfl, hNext.1⟩, fun ⟨_, hNext⟩ => ⟨hNext, hNext.symm⟩⟩
  | false =>
    rw [Bool.toNat_false]
    constructor
    · omega
    · rintro ⟨⟨⟩, _⟩

theorem Reachable.finished_frame (h : Reachable s) (hWas : s.scheduler.pending = true) :
    Finished (s.step .frame) quiet ↔ Finished s (.frame :: quiet) := by
  have hQuiet : (Operation.frame : Operation α).Quiet := trivial
  obtain ⟨hPending, hPasses⟩ := h.quiet_step hQuiet
  have hTokens := h.mem_tokens_step hQuiet
  have hEnds : ∀ token, (Operation.frame : Operation α).ends token = false := fun _ => rfl
  unfold Finished
  simp only [hPending, hTokens, hWas, hEnds, Operation.isFrame, Bool.not_true, Bool.and_false,
    Bool.false_eq_true, false_implies, and_true, true_implies, true_and, List.mem_cons]
  constructor
  · intro hDone
    constructor
    · intro token hToken
      obtain ⟨other, hIn, hOther⟩ := hDone token (.inl hToken)
      exact ⟨other, .inr hIn, hOther⟩
    · exact ⟨[], quiet, rfl, hDone (s.passes + 1) (.inr rfl)⟩
  · rintro ⟨hOld, before, after, hSplit, last, hLast, hSettled⟩ token (hToken | rfl)
    · obtain ⟨other, rfl | hIn, hOther⟩ := hOld token hToken
      · cases hOther
      · exact ⟨other, hIn, hOther⟩
    · refine ⟨last, ?_, hSettled⟩
      cases before with
      | nil => exact (List.cons.inj hSplit).2 ▸ hLast
      | cons _ before =>
        rw [(List.cons.inj hSplit).2]
        exact List.mem_append_right _ (List.mem_cons_of_mem _ hLast)

theorem Reachable.finished_cons_of_no_start (h : Reachable s) (hQuiet : op.Quiet)
    (hNoStart : ¬ (s.scheduler.pending = true ∧ op = .frame)) :
    Finished (s.step op) quiet ↔ Finished s (op :: quiet) := by
  obtain ⟨hPending, hPasses⟩ := h.quiet_step hQuiet
  have hNone : (s.scheduler.pending && op.isFrame) = false := by
    rwa [← op.isFrame_iff, ← Bool.and_eq_true, Bool.not_eq_true] at hNoStart
  have hSame : (s.scheduler.pending && !op.isFrame) = s.scheduler.pending := by
    revert hNone
    cases s.scheduler.pending <;> cases op.isFrame <;> simp
  unfold Finished
  simp only [hPending, hPasses, h.mem_tokens_step hQuiet, hNone, hSame, hNoStart, Bool.toNat_false,
    Nat.add_zero, false_and, or_false, List.mem_cons]
  constructor
  · rintro ⟨hTokens, hFrame⟩
    constructor
    · intro token hToken
      cases hEnds : op.ends token with
      | true => exact ⟨op, .inl rfl, hEnds⟩
      | false =>
        obtain ⟨other, hIn, hOther⟩ := hTokens token ⟨hToken, hEnds⟩
        exact ⟨other, .inr hIn, hOther⟩
    · intro hWas
      obtain ⟨before, after, rfl, hOther⟩ := hFrame hWas
      exact ⟨op :: before, after, rfl, hOther⟩
  · rintro ⟨hTokens, hFrame⟩
    constructor
    · rintro token ⟨hToken, hEnds⟩
      obtain ⟨other, rfl | hIn, hOther⟩ := hTokens token hToken
      · rw [hEnds] at hOther
        cases hOther
      · exact ⟨other, hIn, hOther⟩
    · intro hWas
      obtain ⟨before, after, hSplit, hOther⟩ := hFrame hWas
      cases before with
      | nil => exact absurd ⟨hWas, (List.cons.inj hSplit).1⟩ hNoStart
      | cons _ before => exact ⟨before, after, (List.cons.inj hSplit).2, hOther⟩

theorem Reachable.finished_cons (h : Reachable s) (hQuiet : op.Quiet) :
    Finished (s.step op) quiet ↔ Finished s (op :: quiet) := by
  by_cases hStart : s.scheduler.pending = true ∧ op = .frame
  · obtain ⟨hPending, rfl⟩ := hStart
    exact h.finished_frame hPending
  · exact h.finished_cons_of_no_start hQuiet hStart

theorem Reachable.idle_step (h : Reachable s) (hQuiet : op.Quiet) (hIdle : s.state = .idle) :
    (s.step op).state = .idle ∧ (s.step op).passes = s.passes ∧ (s.step op).store = s.store := by
  obtain ⟨hPending, hFlight⟩ := (state_eq_idle_iff s).mp hIdle
  obtain ⟨hAfter, hPasses⟩ := h.quiet_step hQuiet
  rw [hPending, Bool.false_and] at hAfter hPasses
  refine ⟨?_, hPasses, ?_⟩
  · rw [state_eq_idle_iff, ← List.isEmpty_iff, isEmpty_inFlight_iff]
    refine ⟨hAfter, fun token hToken => ?_⟩
    rcases (h.mem_tokens_step hQuiet token).mp hToken with ⟨hOld, _⟩ | ⟨⟨hWas, _⟩, _⟩
    · rw [tokens, hFlight] at hOld
      cases hOld
    · rw [hPending] at hWas
      cases hWas
  · cases op with
    | frame => exact frame_store s
    | begin token => rfl
    | settle token service =>
      rcases settle_cases s token service with hIdles | ⟨p, placed, hApplies⟩
      · exact hIdles.store
      · have hIn := List.mem_of_find?_eq_some hApplies.inFlight
        rw [hFlight] at hIn
        cases hIn
    | _ => exact hQuiet.elim

/-! ## Quiet runs -/

theorem Reachable.quiet_run (h : Reachable s) (hQuiet : ∀ op ∈ quiet, op.Quiet) :
    (s.run quiet).scheduler.pending = (s.scheduler.pending && !quiet.any Operation.isFrame) ∧
      (s.run quiet).passes =
        s.passes + (s.scheduler.pending && quiet.any Operation.isFrame).toNat := by
  induction quiet generalizing s with
  | nil =>
    constructor
    · exact (Bool.and_true _).symm
    · rw [List.any_nil, Bool.and_false]
      rfl
  | cons op quiet ih =>
    obtain ⟨hFirst, hRest⟩ := List.forall_mem_cons.mp hQuiet
    obtain ⟨hPending, hPasses⟩ := h.quiet_step hFirst
    obtain ⟨hLater, hMore⟩ := ih (h.step op) hRest
    change ((s.step op).run quiet).scheduler.pending = _ ∧ ((s.step op).run quiet).passes = _
    rw [hLater, hMore, hPending, hPasses, List.any_cons]
    cases s.scheduler.pending <;> cases op.isFrame <;> simp

theorem Reachable.mem_tokens_run (h : Reachable s) (hQuiet : ∀ op ∈ quiet, op.Quiet) (token : Nat)
    (hToken : token ∈ (s.run quiet).tokens) :
    (token ∈ s.tokens ∧ ∀ op ∈ quiet, op.ends token = false) ∨
      s.scheduler.pending = true ∧ quiet.any Operation.isFrame = true := by
  induction quiet generalizing s with
  | nil => exact .inl ⟨hToken, fun _ hOp => absurd hOp List.not_mem_nil⟩
  | cons op quiet ih =>
    obtain ⟨hFirst, hRest⟩ := List.forall_mem_cons.mp hQuiet
    rw [List.any_cons, Bool.or_eq_true, List.forall_mem_cons]
    rcases ih (h.step op) hRest hToken with ⟨hIn, hEnds⟩ | ⟨hPending, hFrame⟩
    · rcases (h.mem_tokens_step hFirst token).mp hIn with ⟨hOld, hFirst⟩ | ⟨⟨hWas, hOp⟩, _⟩
      · exact .inl ⟨hOld, hFirst, hEnds⟩
      · exact .inr ⟨hWas, .inl (op.isFrame_iff.mpr hOp)⟩
    · rw [(h.quiet_step hFirst).1, Bool.and_eq_true] at hPending
      exact .inr ⟨hPending.1, .inr hFrame⟩

theorem Reachable.idle_iff_finished (h : Reachable s) (hQuiet : ∀ op ∈ quiet, op.Quiet) :
    (s.run quiet).state = .idle ↔ Finished s quiet := by
  induction quiet generalizing s with
  | nil =>
    change s.state = .idle ↔ _
    rw [state_eq_idle_iff, ← List.isEmpty_iff, isEmpty_inFlight_iff]
    simp [Finished, and_comm]
  | cons op quiet ih =>
    obtain ⟨hFirst, hRest⟩ := List.forall_mem_cons.mp hQuiet
    exact (ih (h.step op) hRest).trans (h.finished_cons hFirst)

theorem Reachable.idle_run (h : Reachable s) (hQuiet : ∀ op ∈ quiet, op.Quiet)
    (hIdle : s.state = .idle) : (s.run quiet).state = .idle ∧ (s.run quiet).passes = s.passes ∧
      (s.run quiet).store = s.store := by
  induction quiet generalizing s with
  | nil => exact ⟨hIdle, rfl, rfl⟩
  | cons op quiet ih =>
    obtain ⟨hFirst, hRest⟩ := List.forall_mem_cons.mp hQuiet
    obtain ⟨hNext, hPasses, hStore⟩ := h.idle_step hFirst hIdle
    obtain ⟨hLast, hMore, hSame⟩ := ih (h.step op) hRest hNext
    exact ⟨hLast, hMore.trans hPasses, hSame.trans hStore⟩

/-! ## Waiting -/

/-- A turn ends the passes that were in flight, or turns the pending frame into one. -/
theorem Reachable.turnsLeft_turn (h : Reachable s) (hTurn : Turn s quiet) :
    turnsLeft (s.run quiet) ≤ turnsLeft s - 1 := by
  obtain ⟨hQuiet, hDone⟩ := hTurn
  have hTokens := h.mem_tokens_run hQuiet
  unfold turnsLeft
  rw [(h.quiet_run hQuiet).1]
  split at hDone
  · rename_i hEmpty
    have hFrame : quiet.any Operation.isFrame = true := List.any_eq_true.mpr ⟨.frame, hDone, rfl⟩
    rw [hFrame, hEmpty]
    cases hPending : s.scheduler.pending with
    | true => cases (s.run quiet).inFlight.isEmpty <;> decide
    | false =>
      have hNone : (s.run quiet).inFlight.isEmpty = true := by
        rw [isEmpty_inFlight_iff] at hEmpty ⊢
        intro token hToken
        rcases hTokens token hToken with ⟨hOld, _⟩ | ⟨hWas, _⟩
        · exact hEmpty token hOld
        · rw [hPending] at hWas
          cases hWas
      rw [hNone]
      exact Nat.le_refl _
  · rename_i hSome
    rw [Bool.not_eq_true] at hSome
    have hNone : (s.scheduler.pending && quiet.any Operation.isFrame) = false →
        (s.run quiet).inFlight.isEmpty = true := by
      intro hNoStart
      rw [isEmpty_inFlight_iff]
      intro token hToken
      rcases hTokens token hToken with ⟨hOld, hAlive⟩ | ⟨hWas, hFrame⟩
      · obtain ⟨op, hOp, hEnds⟩ := hDone token hOld
        rw [hAlive op hOp] at hEnds
        cases hEnds
      · rw [hWas, hFrame] at hNoStart
        cases hNoStart
    rw [hSome]
    cases hPending : s.scheduler.pending with
    | true =>
      cases hFrame : quiet.any Operation.isFrame with
      | true => cases (s.run quiet).inFlight.isEmpty <;> decide
      | false =>
        rw [hNone (by rw [hFrame, Bool.and_false])]
        decide
    | false =>
      rw [hNone (by rw [hPending, Bool.false_and])]
      exact Nat.le_refl _

theorem Reachable.turnsLeft_turns (h : Reachable s) {turns : List (List (Operation α))}
    (hTurns : Turns s turns) : turnsLeft (s.run turns.flatten) ≤ turnsLeft s - turns.length := by
  induction turns generalizing s with
  | nil => exact Nat.le_refl _
  | cons turn turns ih =>
    obtain ⟨hFirst, hRest⟩ := hTurns
    have hNext := h.turnsLeft_turn hFirst
    have hLater := ih (h.run turn) hRest
    rw [List.flatten_cons, run_append, List.length_cons]
    omega

theorem Reachable.idle_turns (h : Reachable s) {turns : List (List (Operation α))}
    (hTurns : Turns s turns) (hLong : turnsLeft s ≤ turns.length) :
    (s.run turns.flatten).state = .idle := by
  have := h.turnsLeft_turns hTurns
  rw [← turnsLeft_eq_zero_iff]
  omega

omit [LawfulCoordinate α] [LawfulMagnitude α]

/-- What happens in the next turn if the service answers all passes in the order of their starts. -/
def nextTurn (s : Session α) (service : Service α) : List (Operation α) :=
  if s.inFlight.isEmpty then [.frame] else s.tokens.map fun token => .settle token service

theorem turn_nextTurn {service : Service α}
    (hService : ∀ token, (Operation.settle token service).Layered) :
    Turn s (s.nextTurn service) := by
  unfold Turn nextTurn
  split
  · refine ⟨fun op hOp => ?_, List.mem_singleton_self _⟩
    rw [List.mem_singleton.mp hOp]
    trivial
  · refine ⟨fun op hOp => ?_, fun token hToken => ?_⟩
    · obtain ⟨token, _, rfl⟩ := List.mem_map.mp hOp
      exact hService token
    · exact ⟨.settle token service, List.mem_map_of_mem hToken, beq_self_eq_true token⟩

theorem runUntilIdle_of_idle (service : Service α) (h : s.state = .idle) (fuel : Nat) :
    runUntilIdle service fuel s = s := by
  obtain ⟨hPending, hFlight⟩ := (state_eq_idle_iff s).mp h
  cases fuel with
  | zero => rfl
  | succ fuel => simp [runUntilIdle, hPending, hFlight]

theorem runUntilIdle_succ (service : Service α) (h : s.state ≠ .idle) (fuel : Nat) :
    runUntilIdle service (fuel + 1) s = runUntilIdle service fuel (s.run (s.nextTurn service)) := by
  rw [runUntilIdle, nextTurn]
  cases hFlight : s.inFlight.isEmpty with
  | false =>
    have hAll : s.settleAll service = s.run (s.tokens.map fun token => .settle token service) := by
      rw [Session.run, List.foldl_map]
      rfl
    simp [hAll]
  | true =>
    have hPending : s.scheduler.pending = true := by
      by_contra hNone
      exact h ((state_eq_idle_iff s).mpr ⟨Bool.eq_false_iff.mpr hNone, List.isEmpty_iff.mp hFlight⟩)
    simp [hPending, Session.run, Session.step]

variable [LawfulCoordinate α] [LawfulMagnitude α]

/-- With fuel for the turns that are left, waiting takes these turns and no more. -/
theorem Reachable.runUntilIdle_eq (h : Reachable s) {service : Service α}
    (hService : ∀ token, (Operation.settle token service).Layered) :
    ∃ turns, Turns s turns ∧ turns.length ≤ turnsLeft s ∧ (s.run turns.flatten).state = .idle ∧
      ∀ fuel, turnsLeft s ≤ fuel → runUntilIdle service fuel s = s.run turns.flatten := by
  induction hLeft : turnsLeft s using Nat.strongRecOn generalizing s with
  | ind left ih =>
    by_cases hIdle : s.state = .idle
    · exact ⟨[], trivial, Nat.zero_le _, hIdle,
        fun fuel _ => runUntilIdle_of_idle service hIdle fuel⟩
    · have hPositive : turnsLeft s ≠ 0 := mt (turnsLeft_eq_zero_iff s).mp hIdle
      have hTurn := turn_nextTurn (s := s) hService
      have hLess := h.turnsLeft_turn hTurn
      obtain ⟨turns, hTurns, hLength, hLast, hRuns⟩ :=
        ih (turnsLeft (s.run (s.nextTurn service))) (by omega) (h.run _) rfl
      refine ⟨s.nextTurn service :: turns, ⟨hTurn, hTurns⟩, ?_, ?_, fun fuel hFuel => ?_⟩
      · rw [List.length_cons]
        omega
      · rw [List.flatten_cons, run_append]
        exact hLast
      · obtain ⟨fuel, rfl⟩ := Nat.exists_eq_succ_of_ne_zero (by omega : fuel ≠ 0)
        rw [runUntilIdle_succ service hIdle, hRuns fuel (by omega), List.flatten_cons, run_append]

/-- From any state, with nobody acting, whatever settles asks for no frame, and at most one more
pass is started, the one of the frame that is pending. The diagram is idle as soon as the passes in
flight and that one have settled, and stays as it is from then on. So waiting for it ends, after
three turns at most, whatever happens in which order. -/
theorem diagram_left_alone_comes_to_rest (options : ViewOptions) (layoutOptions : LayoutOptions)
    (ops : List (Operation α)) :
    let s := (create options layoutOptions).run ops
    (∀ quiet, (∀ op ∈ quiet, op.Quiet) →
      let t := s.run quiet
      (∀ token service, (Operation.settle token service).Layered →
        Spares t (.settle token service)) ∧
      (t.passes = s.passes ∨ s.scheduler.pending = true ∧ t.passes = s.passes + 1) ∧
      (t.state = .idle ↔ Finished s quiet) ∧
      (t.state = .idle → ∀ more, (∀ op ∈ more, op.Quiet) →
        (t.run more).state = .idle ∧ (t.run more).passes = t.passes ∧
          (t.run more).store = t.store)) ∧
    (∀ turns, Turns s turns → 3 ≤ turns.length → (s.run turns.flatten).state = .idle) ∧
    ∀ service, (∀ token, (Operation.settle token service).Layered) →
      ∀ t ∈ [s, s.layoutNow], ∃ turns, Turns t turns ∧ turns.length ≤ 3 ∧
        (t.waitIdle service).state = .idle ∧
        ∀ fuel, 3 ≤ fuel → runUntilIdle service fuel t = t.run turns.flatten := by
  intro s
  have h : Reachable s := ⟨options, layoutOptions, ops, rfl⟩
  refine ⟨fun quiet hQuiet => ?_, fun turns hTurns hLong => ?_, fun service hService t ht => ?_⟩
  · have hThen := h.run quiet
    refine ⟨fun _ _ hLayered => hThen.spares_settle hLayered, ?_, h.idle_iff_finished hQuiet,
      fun hIdle more hMore => hThen.idle_run hMore hIdle⟩
    rw [(h.quiet_run hQuiet).2]
    cases s.scheduler.pending <;> cases quiet.any Operation.isFrame <;> simp
  · exact h.idle_turns hTurns (Nat.le_trans (turnsLeft_le s) hLong)
  · have hNow : Reachable t := by
      rcases List.mem_pair.mp ht with rfl | rfl
      · exact h
      · exact h.step .layoutNow
    have hLeft := turnsLeft_le t
    obtain ⟨turns, hTurns, hLength, hIdle, hRuns⟩ := hNow.runUntilIdle_eq hService
    refine ⟨turns, hTurns, Nat.le_trans hLength hLeft, ?_,
      fun fuel hFuel => hRuns fuel (Nat.le_trans hLeft hFuel)⟩
    rw [waitIdle, hRuns idleLimit (Nat.le_trans hLeft (by decide))]
    exact hIdle

/-- A pass is in flight and a frame is pending. The pass that the frame starts is answered before
the first one, which fails. -/
theorem measured_diagram_comes_to_rest :
    let ops : List (Operation Rat) := [.setDeclarations ⟨[⟨"A", [], 1⟩], by decide⟩, .frame,
      .measure "A" ⟨200, 80⟩]
    let failing : Service Rat := failingService "out of service"
    let quiet := [.frame, .begin 2, .settle 2 layeredService, .settle 1 failing]
    let s := (create ⟨.horizontal, true, .light, true⟩ .standard).run ops
    s.tokens = [1] ∧ s.scheduler.pending = true ∧ (∀ op ∈ quiet, op.Quiet) ∧
      (s.run quiet).passes ≤ 2 ∧ (s.run quiet).state = .idle ∧
      (s.waitIdle layeredService).state = .idle ∧
      (s.layoutNow.waitIdle layeredService).state = .idle := by
  intro ops failing quiet s
  obtain ⟨hQuiet, _, hWaits⟩ :=
    diagram_left_alone_comes_to_rest ⟨.horizontal, true, .light, true⟩ .standard ops
  have hTokens : s.tokens = [1] := by decide +kernel
  have hPending : s.scheduler.pending = true := by decide +kernel
  have hPasses : s.passes = 1 := by decide +kernel
  have hLayered : ∀ token, (Operation.settle token (layeredService (α := Rat))).Layered :=
    fun _ _ _ hAnswer => hAnswer
  have hFails : ∀ token, (Operation.settle token failing).Layered := fun _ _ _ hAnswer => by
    cases hAnswer
  have hOps : ∀ op ∈ quiet, op.Quiet := by
    intro op hOp
    simp only [quiet, List.mem_cons, List.not_mem_nil, or_false] at hOp
    rcases hOp with rfl | rfl | rfl | rfl
    · trivial
    · trivial
    · exact hLayered 2
    · exact hFails 1
  obtain ⟨_, hStarted, hIdle, _⟩ := hQuiet quiet hOps
  change (s.run quiet).passes = s.passes ∨ _ ∧ (s.run quiet).passes = s.passes + 1 at hStarted
  rw [hPasses] at hStarted
  have hFinished : Finished s quiet := by
    constructor
    · rw [hTokens]
      intro token hToken
      rw [List.mem_singleton.mp hToken]
      exact ⟨.settle 1 failing, by simp [quiet], rfl⟩
    · intro _
      rw [hPasses]
      exact ⟨[], _, rfl, .settle 2 layeredService, by simp, rfl⟩
  obtain ⟨_, _, _, hWaited, _⟩ := hWaits layeredService hLayered s (List.mem_pair.mpr (.inl rfl))
  obtain ⟨_, _, _, hLaidOut, _⟩ :=
    hWaits layeredService hLayered s.layoutNow (List.mem_pair.mpr (.inr rfl))
  exact ⟨hTokens, hPending, hOps, by omega, hIdle.mpr hFinished, hWaited, hLaidOut⟩

end TypeDiagram.Session

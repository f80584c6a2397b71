import TypeDiagram.Proofs.Session.Quiescence

/-! # A layout that is waited for takes no time

A diagram of which no pass is in flight is idle again as soon as the pass of a forced layout has
settled: the pass has taken the place of the pending frame, and its answer asks for no other. So no
frame interval passes while the layout is waited for.
-/

namespace TypeDiagram.Session

open Diagram

variable {α : Type} [Coordinate α]

structure Orderly (s : Session α) : Prop where
  mirrors : ∃ built past, Mirrors built past s
  single : s.scheduler.Single

variable {s t : Session α}

theorem orderly_create (options : ViewOptions) (layoutOptions : LayoutOptions) :
    Orderly (create options layoutOptions : Session α) :=
  ⟨⟨_, _, mirrors_run options layoutOptions []⟩, single_run options layoutOptions []⟩

theorem Orderly.step (h : Orderly s) (op : Operation α) : Orderly (s.step op) := by
  obtain ⟨built, past, hMirrors⟩ := h.mirrors
  exact ⟨⟨_, _, hMirrors.step op fun _ => Iff.rfl⟩, step_single h.single op⟩

theorem Orderly.run (h : Orderly s) (ops : List (Operation α)) : Orderly (s.run ops) := by
  induction ops using List.reverseRecOn with
  | nil => exact h
  | append_singleton ops op ih =>
    rw [run_concat]
    exact ih.step op

omit [Coordinate α] in
theorem inFlight_eq_nil_iff (s : Session α) : s.inFlight = [] ↔ s.tokens = [] :=
  List.map_eq_nil_iff.symm

theorem settleAll_eq_run (s : Session α) (service : Service α) :
    s.settleAll service = s.run (s.tokens.map fun token => .settle token service) := by
  rw [Session.run, List.foldl_map]
  rfl

theorem Orderly.settleAll (h : Orderly s) (service : Service α) :
    Orderly (s.settleAll service) := by
  rw [settleAll_eq_run]
  exact h.run _

theorem Orderly.tokens_settles (h : Orderly s) (service : Service α) (tokens : List Nat) :
    (s.run (tokens.map fun token => .settle token service)).tokens =
      s.tokens.filter fun token => !tokens.contains token := by
  induction tokens generalizing s with
  | nil => exact (List.filter_eq_self.mpr fun _ _ => rfl).symm
  | cons token tokens ih =>
    have hStep : (s.step (.settle token service)).tokens =
        s.tokens.filter fun other => !(Operation.settle token service).ends other := by
      rcases tokens_step (step_works h.single (.settle token service)) with
        ⟨_, hTokens⟩ | ⟨hEnds, _⟩
      · exact hTokens
      · exact absurd (hEnds token) (by simp [Operation.ends])
    change ((s.step (.settle token service)).run _).tokens = _
    rw [ih (h.step _), hStep, List.filter_filter]
    refine List.filter_congr fun other _ => ?_
    rw [List.contains_cons, Bool.not_or, Bool.and_comm, Operation.ends, Bool.beq_comm]

theorem Orderly.inFlight_settleAll (h : Orderly s) (service : Service α) :
    (s.settleAll service).inFlight = [] := by
  rw [inFlight_eq_nil_iff, settleAll_eq_run, h.tokens_settles, List.filter_eq_nil_iff]
  intro token hIn
  simpa using hIn

structure Tended (s : Session α) : Prop extends Orderly s where
  settled : s.inFlight = []

theorem tended_create (options : ViewOptions) (layoutOptions : LayoutOptions) :
    Tended (create options layoutOptions : Session α) := ⟨orderly_create options layoutOptions, rfl⟩

omit [Coordinate α] in
theorem Tended.of_store (h : Tended s) (hStore : t.store = s.store)
    (hScheduler : t.scheduler = s.scheduler) (hInFlight : t.inFlight = s.inFlight) : Tended t := by
  obtain ⟨built, past, hMirrors⟩ := h.mirrors
  have hTMirrors : Mirrors built (fun id => past id ∨ id ∈ t.nodes.map Node.id) t :=
    hMirrors.of_store_eq hStore fun _ => Iff.rfl
  exact ⟨⟨⟨_, _, hTMirrors⟩, hScheduler ▸ h.single⟩, hInFlight.trans h.settled⟩

theorem Tended.step (h : Tended s) (op : Operation α) (hWaits : op.waits = true) :
    Tended (s.step op) := by
  refine ⟨h.toOrderly.step op, (inFlight_eq_nil_iff _).mpr ?_⟩
  have hNone := (inFlight_eq_nil_iff s).mp h.settled
  rcases tokens_step (step_works h.single op) with ⟨_, hTokens⟩ | ⟨_, hPasses, _⟩
  · rw [hTokens, hNone, List.filter_nil]
  · have hSame := (step_of_waits hWaits s).2
    omega

theorem Tended.frameSettled (h : Tended s) (service : Service α) :
    Tended (s.frameSettled service) :=
  have hFrame := h.toOrderly.step .frame
  ⟨hFrame.settleAll service, hFrame.inFlight_settleAll service⟩

theorem Tended.layoutNow_settleAll (h : Tended s) (service : Service α) :
    Tended (s.layoutNow.settleAll service) :=
  have hNow := h.toOrderly.step .layoutNow
  ⟨hNow.settleAll service, hNow.inFlight_settleAll service⟩

omit [Coordinate α] in
theorem Tended.inFlight_layoutNow (h : Tended s) :
    s.layoutNow.inFlight = [s.capture (s.passes + 1)] := by
  change s.inFlight ++ _ = _
  rw [h.settled]
  rfl

theorem Tended.idle_layoutNow_settleAll [LawfulCoordinate α] [LawfulMagnitude α] (h : Tended s) :
    (s.layoutNow.settleAll layeredService).state = .idle := by
  obtain ⟨built, past, hMirrors⟩ := (h.toOrderly.step .layoutNow).mirrors
  have hDistinct : ∀ p ∈ s.layoutNow.inFlight, (p.nodes.map Node.id).Nodup := by
    rw [h.inFlight_layoutNow]
    intro p hp
    rw [List.mem_singleton.mp hp]
    exact hMirrors.nodup_ids
  have hSpares : Spares s.layoutNow (.settle (s.passes + 1) layeredService) :=
    hMirrors.spares_settle hDistinct fun _ _ hAnswer => hAnswer
  have hSettles : s.layoutNow.settleAll layeredService =
      s.layoutNow.step (.settle (s.passes + 1) layeredService) := by
    unfold settleAll
    rw [h.inFlight_layoutNow]
    rfl
  rw [state_eq_idle_iff]
  constructor
  · rw [hSettles, hSpares.scheduler_eq]
    rfl
  · exact (h.layoutNow_settleAll layeredService).settled

end TypeDiagram.Session

import Mathlib.Data.List.Nodup
import TypeDiagram.Proofs.Sequence
import TypeDiagram.Session.FrameScheduler

/-! # Coalescing of requests

What a frame owes follows from the requests alone: those behind the last cancellation and behind the
begin of the last frame, each callback once. The first of them sets the time at which the frame is
due, and the others leave it. The requests of a callback that runs in a frame lie behind the begin
of that frame, so that a later one owes them.
-/

namespace TypeDiagram.Session

variable {τ κ : Type}

/-- What befalls the frames of a scheduler. -/
inductive FrameIncident (τ κ : Type) where
  | requested (callback : κ) (time : τ)
  | cancelled
  /-- A frame begins to run. -/
  | began
deriving DecidableEq, Repr

def FrameAction.incident (time : τ) : FrameAction κ → FrameIncident τ κ
  | .request callback => .requested callback time
  | .cancel => .cancelled

/-- The requests that wait for a frame after one more incident. -/
def FrameIncident.affect (waiting : List (κ × τ)) : FrameIncident τ κ → List (κ × τ)
  | .requested callback time => waiting ++ [(callback, time)]
  | .cancelled | .began => []

/-- The requests behind the last cancellation and behind the begin of the last frame, oldest first,
with their times. -/
def outstanding (past : List (FrameIncident τ κ)) : List (κ × τ) :=
  past.foldl FrameIncident.affect []

theorem outstanding_concat (past : List (FrameIncident τ κ)) (i : FrameIncident τ κ) :
    outstanding (past ++ [i]) = i.affect (outstanding past) := by
  rw [outstanding, List.foldl_append]
  rfl

theorem outstanding_append_began (past since : List (FrameIncident τ κ)) :
    outstanding (past ++ .began :: since) = outstanding since := by
  rw [outstanding, List.foldl_append]
  rfl

theorem mem_outstanding {past : List (FrameIncident τ κ)} {r : κ × τ} (h : r ∈ outstanding past) :
    .requested r.1 r.2 ∈ past := by
  induction past using List.reverseRecOn with
  | nil => cases h
  | append_singleton past i ih =>
    rw [outstanding_concat] at h
    cases i with
    | requested callback time =>
      rcases List.mem_append.mp h with hOld | hNew
      · exact List.mem_append_left _ (ih hOld)
      · rw [List.mem_singleton.mp hNew]
        exact List.mem_append_right _ List.mem_cons_self
    | cancelled | began => cases h

namespace FrameScheduler

variable [Add τ] [DecidableEq κ]

/-- The scheduler waits for what the incidents have left to wait for. -/
structure Owes (s : FrameScheduler τ κ) (past : List (FrameIncident τ κ)) : Prop where
  queue : s.queue = ((outstanding past).map Prod.fst).eraseDups
  due : s.due = (outstanding past).head?.map fun first => first.2 + s.interval

theorem Owes.pending_iff {s : FrameScheduler τ κ} {past : List (FrameIncident τ κ)}
    (h : s.Owes past) : s.pending = true ↔ s.queue ≠ [] := by
  rw [pending, h.due, h.queue]
  cases outstanding past <;> simp [List.eraseDups_cons]

/-! ## Requests and cancellations -/

variable {s : FrameScheduler τ κ} {past : List (FrameIncident τ κ)}

theorem Owes.act (h : s.Owes past) (a : FrameAction κ) :
    (s.act a).Owes (past ++ [a.incident s.clock]) := by
  cases a with
  | cancel =>
    refine ⟨?_, ?_⟩ <;> rw [outstanding_concat] <;> rfl
  | request k =>
    refine ⟨?_, ?_⟩ <;> rw [outstanding_concat]
    · change (if s.queue.contains k then s.queue else s.queue ++ [k]) =
        ((outstanding past ++ [(k, s.clock)]).map Prod.fst).eraseDups
      rw [List.map_append, List.map_singleton, eraseDups_concat, h.queue]
      simp only [List.contains_iff_mem, List.mem_eraseDups]
    · change some (s.due.getD (s.clock + s.interval)) =
        (outstanding past ++ [(k, s.clock)]).head?.map fun first => first.2 + s.interval
      rw [h.due]
      cases outstanding past <;> rfl

/-- The second scheduler has the clock, the interval and the resolution of the first. -/
structure Keeps (s t : FrameScheduler τ κ) : Prop where
  clock : t.clock = s.clock
  interval : t.interval = s.interval
  resolution : t.resolution = s.resolution

theorem keeps_act (s : FrameScheduler τ κ) (a : FrameAction κ) : s.Keeps (s.act a) := by
  cases a <;> exact ⟨rfl, rfl, rfl⟩

omit [Add τ] [DecidableEq κ] in
theorem Keeps.trans {s t u : FrameScheduler τ κ} (h : s.Keeps t) (h' : t.Keeps u) : s.Keeps u where
  clock := h'.clock.trans h.clock
  interval := h'.interval.trans h.interval
  resolution := h'.resolution.trans h.resolution

theorem keeps_foldl_act (s : FrameScheduler τ κ) (actions : List (FrameAction κ)) :
    s.Keeps (actions.foldl act s) := by
  induction actions generalizing s with
  | nil => exact ⟨rfl, rfl, rfl⟩
  | cons a actions ih => exact (keeps_act s a).trans (ih (s.act a))

theorem Owes.foldl_act (h : s.Owes past) (actions : List (FrameAction κ)) :
    (actions.foldl FrameScheduler.act s).Owes (past ++ actions.map (·.incident s.clock)) := by
  induction actions generalizing s past with
  | nil => simpa using h
  | cons a actions ih =>
    have hRest := ih (h.act a)
    rwa [(keeps_act s a).clock, List.append_assoc] at hRest

/-! ## Frames -/

def doings (react : κ → FrameReaction κ) (time : τ) (callbacks : List κ) :
    List (FrameIncident τ κ) :=
  callbacks.flatMap fun k => (react k).actions.map (·.incident time)

theorem runAll_cons (react : κ → FrameReaction κ) (s : FrameScheduler τ κ) (k : κ) (ks : List κ) :
    runAll react s (k :: ks) =
      if (react k).fails then ((react k).actions.foldl FrameScheduler.act s, [k])
      else
        let rest := runAll react ((react k).actions.foldl FrameScheduler.act s) ks
        (rest.1, k :: rest.2) := rfl

theorem Owes.runAll (h : s.Owes past) (react : κ → FrameReaction κ) (callbacks : List κ) :
    (runAll react s callbacks).1.Owes
      (past ++ doings react s.clock (FrameScheduler.runAll react s callbacks).2) := by
  induction callbacks generalizing s past with
  | nil =>
    change s.Owes (past ++ [])
    rwa [List.append_nil]
  | cons k ks ih =>
    have hActed := h.foldl_act (react k).actions
    rw [runAll_cons]
    split
    · simpa [doings] using hActed
    · have hRest := ih hActed
      rw [(keeps_foldl_act s _).clock, List.append_assoc] at hRest
      exact hRest

theorem keeps_runAll (react : κ → FrameReaction κ) (s : FrameScheduler τ κ) (callbacks : List κ) :
    s.Keeps (runAll react s callbacks).1 := by
  induction callbacks generalizing s with
  | nil => exact ⟨rfl, rfl, rfl⟩
  | cons k ks ih =>
    have hActed := keeps_foldl_act s (react k).actions
    rw [runAll_cons]
    split
    · exact hActed
    · exact hActed.trans (ih _)

theorem runAll_of_calm {react : κ → FrameReaction κ} (h : ∀ k, (react k).fails = false)
    (s : FrameScheduler τ κ) (callbacks : List κ) : (runAll react s callbacks).2 = callbacks := by
  induction callbacks generalizing s with
  | nil => rfl
  | cons k ks ih =>
    rw [runAll_cons, h k]
    exact congrArg (k :: ·) (ih _)

/-- After a frame the scheduler waits for what the callbacks of the frame have asked for. -/
theorem owes_tick (s : FrameScheduler τ κ) (react : κ → FrameReaction κ) :
    (s.tick react).1.Owes (doings react s.clock (s.tick react).2) := by
  have hCleared : ({ s with queue := [], due := none } : FrameScheduler τ κ).Owes [] := ⟨rfl, rfl⟩
  exact hCleared.runAll react s.queue

omit [Add τ] [DecidableEq κ] in
theorem time_of_mem_doings {react : κ → FrameReaction κ} {time : τ} {callbacks : List κ}
    {r : κ × τ} (h : .requested r.1 r.2 ∈ doings react time callbacks) : r.2 = time := by
  obtain ⟨k, _, hIn⟩ := List.mem_flatMap.mp h
  obtain ⟨a, _, hSame⟩ := List.mem_map.mp hIn
  cases a with
  | request callback => exact (FrameIncident.requested.inj hSame).2.symm
  | cancel => cases hSame

theorem keeps_tick (s : FrameScheduler τ κ) (react : κ → FrameReaction κ) :
    s.Keeps (s.tick react).1 := by
  have hRan := keeps_runAll react { s with queue := [], due := none } s.queue
  exact ⟨hRan.clock, hRan.interval, hRan.resolution⟩

theorem due_tick (s : FrameScheduler τ κ) (react : κ → FrameReaction κ) :
    (s.tick react).1.due =
      (outstanding (doings react s.clock (s.tick react).2)).head?.map fun _ =>
        s.clock + s.interval := by
  rw [(owes_tick s react).due, (keeps_tick s react).interval]
  refine Option.map_congr fun first hFirst => ?_
  rw [time_of_mem_doings (mem_outstanding (List.mem_of_head? hFirst))]

/-! ## Runs -/

variable [LT τ] [DecidableLT τ]

theorem move_frame (s : FrameScheduler τ κ) (react : κ → FrameReaction κ) :
    s.move (.frame react) = if s.isDue then s.tick react else (s, []) := rfl

theorem run_cons (s : FrameScheduler τ κ) (m : FrameMove τ κ) (ms : List (FrameMove τ κ)) :
    s.run (m :: ms) = (((s.move m).1.run ms).1, (s.move m).2 ++ ((s.move m).1.run ms).2) := rfl

def incidents (s : FrameScheduler τ κ) : FrameMove τ κ → List (FrameIncident τ κ)
  | .request callback => [.requested callback s.clock]
  | .cancel => [.cancelled]
  | .wait _ => []
  | .frame react => if s.isDue then .began :: doings react s.clock (s.tick react).2 else []

def log (s : FrameScheduler τ κ) : List (FrameMove τ κ) → List (FrameIncident τ κ)
  | [] => []
  | m :: ms => s.incidents m ++ (s.move m).1.log ms

theorem Owes.move (h : s.Owes past) (m : FrameMove τ κ) :
    (s.move m).1.Owes (past ++ s.incidents m) := by
  cases m with
  | request callback => exact h.act (.request callback)
  | cancel => exact h.act .cancel
  | wait time =>
    change Owes { s with clock := s.clock + time } (past ++ [])
    rw [List.append_nil]
    exact ⟨h.queue, h.due⟩
  | frame react =>
    rw [move_frame, incidents]
    split
    · have hAfter := owes_tick s react
      refine ⟨?_, ?_⟩ <;> rw [outstanding_append_began]
      · exact hAfter.queue
      · exact hAfter.due
    · rwa [List.append_nil]

theorem Owes.run (h : s.Owes past) (moves : List (FrameMove τ κ)) :
    (s.run moves).1.Owes (past ++ s.log moves) := by
  induction moves generalizing s past with
  | nil =>
    change s.Owes (past ++ [])
    rwa [List.append_nil]
  | cons m ms ih =>
    have hRest := ih (h.move m)
    rw [List.append_assoc] at hRest
    exact hRest

theorem owes_run (interval resolution clock : τ) (moves : List (FrameMove τ κ)) :
    ((start interval resolution clock).run moves).1.Owes
      ((start interval resolution clock).log moves) := by
  have hStart : (start interval resolution clock : FrameScheduler τ κ).Owes [] := ⟨rfl, rfl⟩
  exact hStart.run moves

theorem settings_move (s : FrameScheduler τ κ) (m : FrameMove τ κ) :
    (s.move m).1.interval = s.interval ∧ (s.move m).1.resolution = s.resolution := by
  cases m with
  | request callback | cancel | wait time => exact ⟨rfl, rfl⟩
  | frame react =>
    rw [move_frame]
    split
    · exact ⟨(keeps_tick s react).interval, (keeps_tick s react).resolution⟩
    · exact ⟨rfl, rfl⟩

theorem settings_run (s : FrameScheduler τ κ) (moves : List (FrameMove τ κ)) :
    (s.run moves).1.interval = s.interval ∧ (s.run moves).1.resolution = s.resolution := by
  induction moves generalizing s with
  | nil => exact ⟨rfl, rfl⟩
  | cons m ms ih =>
    obtain ⟨hInterval, hResolution⟩ := settings_move s m
    exact ⟨(ih _).1.trans hInterval, (ih _).2.trans hResolution⟩

/-! ## Frames that are due -/

/-- A frame that is due runs what is owed, each callback once, in the order of first requests. -/
theorem Owes.frame (h : s.Owes past) {react : κ → FrameReaction κ}
    (hCalm : ∀ k, (react k).fails = false) (hDue : s.isDue = true) :
    (s.move (.frame react)).2 = ((outstanding past).map Prod.fst).eraseDups := by
  rw [move_frame, if_pos hDue, ← h.queue]
  exact runAll_of_calm hCalm _ _

theorem run_of_not_pending (s : FrameScheduler τ κ) (hNone : s.due = none)
    (moves : List (FrameMove τ κ)) (hMoves : ∀ callback, .request callback ∉ moves) :
    (s.run moves).2 = [] := by
  induction moves generalizing s with
  | nil => rfl
  | cons m ms ih =>
    have hRest : ∀ callback, .request callback ∉ ms := fun callback hIn =>
      hMoves callback (List.mem_cons_of_mem m hIn)
    cases m with
    | request callback => exact absurd List.mem_cons_self (hMoves callback)
    | cancel => exact ih s.cancel rfl hRest
    | wait time => exact ih { s with clock := s.clock + time } hNone hRest
    | frame react =>
      have hIdle : s.move (.frame react) = (s, []) := by
        rw [move_frame, isDue, hNone]
        rfl
      rw [run_cons, hIdle]
      exact ih s hNone hRest

/-! ## Time that passes at once -/

theorem run_frames_of_not_due {s : FrameScheduler τ κ} (h : s.isDue = false)
    (react : κ → FrameReaction κ) (n : Nat) :
    s.run (List.replicate n (.frame react)) = (s, []) := by
  induction n with
  | zero => rfl
  | succ n ih =>
    have hIdle : s.move (.frame react) = (s, []) := by
      rw [move_frame, h]
      rfl
    rw [List.replicate_succ, run_cons, hIdle, ih]
    rfl

theorem runDue_succ (react : κ → FrameReaction κ) (fuel : Nat) (s : FrameScheduler τ κ) :
    runDue react (fuel + 1) s =
      if s.isDue then
        let rest := runDue react fuel (s.tick react).1
        (rest.1, (s.tick react).2 ++ rest.2)
      else (s, []) := by
  rw [runDue, isDue]
  cases s.due with
  | none => rfl
  | some time => by_cases hDue : time < s.clock + s.resolution <;> simp [hDue]

theorem runDue_eq_run (react : κ → FrameReaction κ) (fuel : Nat) (s : FrameScheduler τ κ) :
    runDue react fuel s = s.run (List.replicate fuel (.frame react)) := by
  induction fuel generalizing s with
  | zero => rfl
  | succ fuel ih =>
    rw [runDue_succ]
    cases hDue : s.isDue with
    | false =>
      rw [run_frames_of_not_due hDue]
      rfl
    | true =>
      have hTick : s.move (.frame react) = s.tick react := by
        rw [move_frame, hDue]
        rfl
      rw [List.replicate_succ, run_cons, hTick, ih]
      rfl

theorem run_wait_cons (s : FrameScheduler τ κ) (time : τ) (ms : List (FrameMove τ κ)) :
    s.run (.wait time :: ms) = run { s with clock := s.clock + time } ms := rfl

/-- Time that passes at once passes first, and then frames run as long as one is due. -/
theorem advance_eq_run (s : FrameScheduler τ κ) (react : κ → FrameReaction κ) (time : τ) :
    s.advance react time = s.run (.wait time :: List.replicate frameLimit (.frame react)) := by
  rw [run_wait_cons, advance, runDue_eq_run]

theorem isDue_tick {s : FrameScheduler τ κ} (react : κ → FrameReaction κ)
    (h : ∀ time, ¬ time + s.interval < time + s.resolution) : (s.tick react).1.isDue = false := by
  have hKeeps := keeps_tick s react
  rw [isDue, hKeeps.clock, hKeeps.resolution, due_tick]
  cases (outstanding (doings react s.clock (s.tick react).2)).head? with
  | none => rfl
  | some _ => exact decide_eq_false (h s.clock)

/-- Where the clock tells an interval from no time, no frame that is due is left behind. -/
theorem isDue_advance {s : FrameScheduler τ κ} (react : κ → FrameReaction κ) (time : τ)
    (h : ∀ time, ¬ time + s.interval < time + s.resolution) :
    (s.advance react time).1.isDue = false := by
  have hFrames : ∀ (fuel : Nat) (t : FrameScheduler τ κ),
      (∀ time, ¬ time + t.interval < time + t.resolution) →
      (runDue react (fuel + 1) t).1.isDue = false := by
    intro fuel t ht
    rw [runDue_succ]
    cases hDue : t.isDue with
    | false => exact hDue
    | true =>
      have hLast := isDue_tick react ht
      change (runDue react fuel (t.tick react).1).1.isDue = false
      rwa [runDue_eq_run, run_frames_of_not_due hLast]
  exact hFrames 999 { s with clock := s.clock + time } h

/-- A scheduler is pending as long as something waits, and its frame is due one interval behind the
first request that waits. A frame that is due runs each callback that waits once, in the order of
the first requests, and leaves what its own callbacks have asked for and not cancelled. Behind a
cancellation nothing runs without a request. When time passes at once, frames run as long as one is
due. -/
theorem frames_run_what_was_requested (interval resolution clock : τ)
    (moves : List (FrameMove τ κ)) {react : κ → FrameReaction κ}
    (hCalm : ∀ k, (react k).fails = false) :
    let start : FrameScheduler τ κ := .start interval resolution clock
    let s := (start.run moves).1
    let waiting := outstanding (start.log moves)
    let after := (s.move (.frame react)).1
    let ran := (s.move (.frame react)).2
    let asked := outstanding (doings react s.clock ran)
    (s.pending = true ↔ s.queue ≠ []) ∧
    s.due = waiting.head?.map (fun first => first.2 + interval) ∧
    (s.isDue = true → ran = (waiting.map Prod.fst).eraseDups ∧ ran.Nodup ∧
      after.queue = (asked.map Prod.fst).eraseDups ∧
      after.due = asked.head?.map fun _ => s.clock + interval) ∧
    (s.isDue = false → after = s ∧ ran = []) ∧
    (∀ later, (∀ k, .request k ∉ later) → (s.cancel.run later).2 = []) ∧
    ∀ time, s.advance react time =
        s.run (.wait time :: List.replicate frameLimit (.frame react)) ∧
      ((∀ t, ¬ t + interval < t + resolution) → (s.advance react time).1.isDue = false) := by
  intro start s waiting after ran asked
  have hOwes : s.Owes (start.log moves) := owes_run interval resolution clock moves
  obtain ⟨hInterval, hResolution⟩ := settings_run start moves
  change s.interval = interval at hInterval
  change s.resolution = resolution at hResolution
  refine ⟨hOwes.pending_iff, ?_, fun hDue => ?_, fun hNot => ?_, ?_, fun time => ⟨?_, ?_⟩⟩
  · rw [← hInterval]
    exact hOwes.due
  · have hRan : ran = (waiting.map Prod.fst).eraseDups := hOwes.frame hCalm hDue
    refine ⟨hRan, hRan ▸ nodup_eraseDups _, ?_⟩
    simp only [after, asked, ran, move_frame, if_pos hDue]
    rw [← hInterval]
    exact ⟨(owes_tick s react).queue, due_tick s react⟩
  · simp only [after, ran, move_frame, hNot]
    exact ⟨rfl, rfl⟩
  · exact run_of_not_pending s.cancel rfl
  · exact advance_eq_run s react time
  · intro hClear
    rw [← hInterval, ← hResolution] at hClear
    exact isDue_advance react time hClear

/-- The first callback asks for itself and the second cancels that, asks for a third one and runs to
its end. The frame is due two units behind the first request, not behind the later ones. -/
theorem frame_runs_while_cancelled :
    let react : Nat → FrameReaction Nat := fun k =>
      ⟨if k = 1 then [.request 1] else [.cancel, .request 3], false⟩
    let s := ((start 2 1 0 : FrameScheduler Nat Nat).run
      [.request 1, .wait 1, .request 2, .request 1, .wait 1]).1
    (∀ k, (react k).fails = false) ∧ s.isDue = true ∧
      (s.move (.frame react)).2 = [1, 2] ∧
      (s.move (.frame react)).1.queue = [3] ∧ (s.move (.frame react)).1.due = some 4 := by
  intro react s
  have hCalm : ∀ k, (react k).fails = false := fun _ => rfl
  have hDue : s.isDue = true := by decide
  obtain ⟨_, _, hRuns, _⟩ := frames_run_what_was_requested 2 1 0
    [.request 1, .wait 1, .request 2, .request 1, .wait 1] hCalm
  obtain ⟨hRan, _, hQueue, hNext⟩ := hRuns hDue
  exact ⟨hCalm, hDue, hRan.trans (by decide +kernel), hQueue.trans (by decide +kernel),
    hNext.trans (by decide +kernel)⟩

end FrameScheduler

end TypeDiagram.Session

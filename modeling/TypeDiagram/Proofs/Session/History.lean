import TypeDiagram.Proofs.Session.Delivery

/-! # The history of a bus

The history holds the latest of the published events, up to its capacity. What is asked of it are
the latest of these again, or those of one kind. The limit zero is no bound: it gives all of them.
-/

namespace TypeDiagram.Session

variable {β ι δ : Type}

/-- The second list holds the last elements of the first one, `n` of them if it has as many. -/
structure AreLatest (n : Nat) (xs latest : List β) : Prop where
  suffix : latest <:+ xs
  length : latest.length = min n xs.length

theorem areLatest_lastOf (n : Nat) (xs : List β) : AreLatest n xs (History.lastOf n xs) where
  suffix := List.drop_suffix _ _
  length := by
    rw [History.lastOf, List.length_drop]
    omega

theorem areLatest_self (xs : List β) : AreLatest xs.length xs xs where
  suffix := List.suffix_rfl
  length := (Nat.min_self _).symm

/-- With one element more, the latest are found among the latest so far and that one. -/
theorem AreLatest.concat {n : Nat} {xs latest : List β} (h : AreLatest n xs latest) (x : β) :
    AreLatest n (xs ++ [x]) (History.lastOf n (latest ++ [x])) where
  suffix := by
    obtain ⟨older, rfl⟩ := h.suffix
    rw [List.append_assoc]
    exact (areLatest_lastOf n _).suffix.trans (List.suffix_append older _)
  length := by
    rw [(areLatest_lastOf n _).length, List.length_append, List.length_append, h.length,
      List.length_singleton]
    omega

def BusStep.event? : BusStep ι δ → Option (Event δ)
  | .act _ => none
  | .publish _ e => some e

def published (steps : List (BusStep ι δ)) : List (Event δ) := steps.filterMap BusStep.event?

namespace History

/-- The history holds the latest of some events. -/
structure Keeps (h : History δ) (capacity : Option Nat) (events : List (Event δ)) : Prop where
  bound : h.capacity = capacity
  latest : AreLatest (capacity.getD events.length) events h.events

theorem keeps_empty (capacity : Option Nat) : (empty capacity : History δ).Keeps capacity [] where
  bound := rfl
  latest := ⟨List.suffix_rfl, (Nat.min_zero _).symm⟩

theorem Keeps.push {h : History δ} {capacity : Option Nat} {events : List (Event δ)}
    (hKeeps : h.Keeps capacity events) (e : Event δ) :
    (h.push e).Keeps capacity (events ++ [e]) where
  bound := hKeeps.bound
  latest := by
    have hLatest := hKeeps.latest
    unfold History.push
    rw [hKeeps.bound]
    cases capacity with
    | none =>
      have hAll : h.events = events :=
        hLatest.suffix.eq_of_length (hLatest.length.trans (Nat.min_self _))
      rw [hAll]
      exact areLatest_self _
    | some n => exact hLatest.concat e

theorem areLatest_recent (h : History δ) {limit : Nat} (hLimit : 0 < limit) :
    AreLatest limit h.events (h.recent limit) := by
  rw [recent, if_pos (Int.natCast_pos.mpr hLimit), Int.toNat_natCast]
  exact areLatest_lastOf limit h.events

theorem recent_zero (h : History δ) : h.recent 0 = h.events := rfl

end History

namespace EventBus

variable [DecidableEq ι]

theorem history_act (b : EventBus ι δ) (a : BusAction ι) : (b.act a).history = b.history := by
  cases a <;> rfl

theorem history_foldl_act (b : EventBus ι δ) (actions : List (BusAction ι)) :
    (actions.foldl act b).history = b.history := by
  induction actions generalizing b with
  | nil => rfl
  | cons a actions ih => exact (ih (b.act a)).trans (history_act b a)

theorem history_step (b : EventBus ι δ) (s : BusStep ι δ) :
    (b.step s).history = s.event?.toList.foldl History.push b.history := by
  cases s with
  | act a => exact history_act b a
  | publish react e =>
    rw [step, deliver_eq, history_foldl_act]
    rfl

theorem keeps_run (capacity : Option Nat) (steps : List (BusStep ι δ)) :
    ((empty capacity : EventBus ι δ).run steps).history.Keeps capacity (published steps) := by
  induction steps using List.reverseRecOn with
  | nil => exact History.keeps_empty capacity
  | append_singleton steps s ih =>
    rw [run_concat, history_step, published, List.filterMap_append]
    cases s with
    | act a =>
      change History.Keeps _ capacity (published steps ++ [])
      rwa [List.append_nil]
    | publish react e => exact ih.push e

/-- A bus can be created with any capacity. Its history then holds the latest of the published
events, all of them without a bound, and a positive limit asks for so many of the latest of these,
the limit zero for all. The events of a kind are all that have it, in their order. -/
theorem history_keeps_the_latest (capacity : Option Nat) (steps : List (BusStep ι δ))
    (limit : Nat) (kind : EventKind) :
    ∃ b : EventBus ι δ, create (capacity.map Int.ofNat) = .ok b ∧
      let h := (b.run steps).history
      AreLatest (capacity.getD (published steps).length) (published steps) h.events ∧
      (0 < limit → AreLatest limit h.events (h.recent limit)) ∧
      h.recent 0 = h.events ∧
      (h.ofKind kind).Sublist h.events ∧ (∀ e ∈ h.ofKind kind, e.kind = kind) ∧
        (h.ofKind kind).length = h.events.countP fun e => e.kind == kind := by
  refine ⟨empty capacity, ?_, (keeps_run capacity steps).latest, ?_, ?_, ?_, ?_, ?_⟩
  · cases capacity <;> rfl
  · exact History.areLatest_recent _
  · exact History.recent_zero _
  · exact List.filter_sublist
  · exact fun e he => beq_iff_eq.mp (List.mem_filter.mp he).2
  · exact List.countP_eq_length_filter.symm

/-- Of four events the history keeps three, whatever the callback of the second does. -/
theorem history_keeps_the_latest_three :
    let e (kind : EventKind) : Event Unit := ⟨kind, none, ()⟩
    let react : Nat → Nat → BusReaction Nat := fun _ callback =>
      ⟨[.unsubscribe .fitView callback], true⟩
    let steps : List (BusStep Nat Unit) :=
      [.publish react (e .stateCommitted), .act (.subscribe .fitView 1),
        .publish react (e .fitView), .publish react (e .layoutApplied), .publish react (e .fitView)]
    let h := ((empty (some 3) : EventBus Nat Unit).run steps).history
    0 < 2 ∧ AreLatest 3 (published steps) h.events ∧ AreLatest 2 h.events (h.recent 2) ∧
      h.recent 2 = [e .layoutApplied, e .fitView] := by
  intro e react steps h
  obtain ⟨b, hCreate, hLatest, hRecent, _⟩ := history_keeps_the_latest (some 3) steps 2 .fitView
  cases Except.ok.inj hCreate
  exact ⟨by decide, hLatest, hRecent (by decide), by decide⟩

/-- Of one event the limit zero gives one, not none. -/
theorem recent_zero_is_not_empty :
    let b : EventBus Nat Unit :=
      (empty none).run [.publish (fun _ _ => ⟨[], false⟩) ⟨.fitView, none, ()⟩]
    ¬ AreLatest 0 b.history.events (b.history.recent 0) := by
  intro b h
  exact absurd h.length (by decide)

end EventBus

end TypeDiagram.Session

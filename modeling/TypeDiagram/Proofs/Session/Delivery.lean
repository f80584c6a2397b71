import Mathlib.Data.List.Induction
import TypeDiagram.Session.EventBus

/-! # Delivery of events

Who is subscribed follows from the actions on the bus alone, in the order in which they were taken:
those of its user, and those of the callbacks that were called. A delivery calls the callbacks that
were subscribed when it began, also behind one that fails, and what they do to the subscriptions
joins the actions that the next delivery goes by.
-/

namespace TypeDiagram.Session

variable {ι δ : Type} [DecidableEq ι]

def BusAction.kind : BusAction ι → EventKind
  | .subscribe kind _ | .unsubscribe kind _ => kind

/-- The callbacks that are subscribed to a kind after some actions, once for each subscription that
no later action ends. -/
def standing (kind : EventKind) : List (BusAction ι) → List ι
  | [] => []
  | .subscribe k callback :: rest =>
    if k = kind ∧ .unsubscribe kind callback ∉ rest then callback :: standing kind rest
    else standing kind rest
  | .unsubscribe _ _ :: rest => standing kind rest

/-- What some callbacks do that are called in order, the first of them as the one with the given
number. -/
def reactions (react : Nat → ι → BusReaction ι) (number : Nat) (callbacks : List ι) :
    List (BusAction ι) :=
  (callbacks.zipIdx number).flatMap fun (callback, n) => (react n callback).actions

def BusStep.actions (past : List (BusAction ι)) : BusStep ι δ → List (BusAction ι)
  | .act a => [a]
  | .publish react e => reactions react 0 (standing e.kind past)

def happened (steps : List (BusStep ι δ)) : List (BusAction ι) :=
  steps.foldl (fun past step => past ++ step.actions past) []

/-! ## Subscriptions that stand -/

theorem standing_concat_subscribe (kind k : EventKind) (callback : ι)
    (past : List (BusAction ι)) :
    standing kind (past ++ [.subscribe k callback]) =
      standing kind past ++ if k = kind then [callback] else [] := by
  induction past with
  | nil => by_cases h : k = kind <;> simp [standing, h]
  | cons a past ih =>
    cases a with
    | subscribe k' c =>
      simp only [List.cons_append, standing, ih, List.mem_append, List.mem_singleton, reduceCtorEq,
        or_false]
      split <;> rfl
    | unsubscribe k' c => simpa only [List.cons_append, standing] using ih

theorem standing_concat_unsubscribe (kind k : EventKind) (callback : ι)
    (past : List (BusAction ι)) :
    standing kind (past ++ [.unsubscribe k callback]) =
      (standing kind past).filter fun c => !(kind == k && c == callback) := by
  induction past with
  | nil => rfl
  | cons a past ih =>
    cases a with
    | subscribe k' c =>
      simp only [List.cons_append, standing, ih, List.mem_append, List.mem_singleton, not_or,
        BusAction.unsubscribe.injEq, ← and_assoc]
      by_cases hStands : k' = kind ∧ .unsubscribe kind c ∉ past
      · rw [if_pos hStands, List.filter_cons]
        by_cases hEnds : kind = k ∧ c = callback <;> simp [hStands, hEnds]
      · rw [if_neg hStands, if_neg fun h => hStands h.1]
    | unsubscribe k' c => simpa only [List.cons_append, standing] using ih

theorem standing_filter_kind (kind : EventKind) (past : List (BusAction ι)) :
    standing kind (past.filter fun a => a.kind == kind) = standing kind past := by
  induction past with
  | nil => rfl
  | cons a past ih =>
    rw [List.filter_cons]
    cases a with
    | subscribe k c =>
      by_cases hKind : k = kind
      · have hKeeps : BusAction.unsubscribe kind c ∈ (past.filter fun a => a.kind == kind) ↔
            .unsubscribe kind c ∈ past := by
          simp [List.mem_filter, BusAction.kind]
        rw [if_pos (by simpa [BusAction.kind] using hKind)]
        simp only [standing, hKeeps, ih]
      · rw [if_neg (by simpa [BusAction.kind] using hKind), ih, standing,
          if_neg fun h => hKind h.1]
    | unsubscribe k c => split <;> simpa only [standing] using ih

namespace EventBus

/-! ## The subscriptions of a bus -/

/-- The subscriptions of the bus are those that the actions leave. -/
def Follows (b : EventBus ι δ) (past : List (BusAction ι)) : Prop :=
  ∀ kind, b.subscribers kind = standing kind past

theorem subscribers_unsubscribe (b : EventBus ι δ) (kind other : EventKind) (callback : ι) :
    (b.unsubscribe kind callback).subscribers other =
      (b.subscribers other).filter fun c => !(other == kind && c == callback) := by
  simp only [subscribers, unsubscribe, List.filter_filter, List.filter_map]
  congr 1
  refine List.filter_congr fun (k, c) _ => Bool.eq_iff_iff.mpr ?_
  by_cases hOther : k = other
  · simp [hOther, imp_iff_not_or]
  · simp [hOther]

omit [DecidableEq ι] in
theorem subscribers_subscribe (b : EventBus ι δ) (kind other : EventKind) (callback : ι) :
    (b.subscribe kind callback).subscribers other =
      b.subscribers other ++ if kind = other then [callback] else [] := by
  by_cases hOther : kind = other <;> simp [subscribers, subscribe, hOther]

variable {b : EventBus ι δ} {past : List (BusAction ι)}

theorem Follows.act (h : b.Follows past) (a : BusAction ι) : (b.act a).Follows (past ++ [a]) := by
  intro kind
  cases a with
  | subscribe k callback =>
    rw [standing_concat_subscribe, ← h kind]
    exact subscribers_subscribe b k kind callback
  | unsubscribe k callback =>
    rw [standing_concat_unsubscribe, ← h kind]
    exact subscribers_unsubscribe b k kind callback

theorem Follows.foldl_act (h : b.Follows past) (actions : List (BusAction ι)) :
    (actions.foldl EventBus.act b).Follows (past ++ actions) := by
  induction actions generalizing b past with
  | nil => rwa [List.append_nil]
  | cons a actions ih =>
    rw [List.append_cons]
    exact ih (h.act a)

/-! ## Deliveries -/

omit [DecidableEq ι] in
theorem reactions_cons (react : Nat → ι → BusReaction ι) (number : Nat) (callback : ι)
    (callbacks : List ι) :
    reactions react number (callback :: callbacks) =
      (react number callback).actions ++ reactions react (number + 1) callbacks := rfl

theorem run_guarded_call (reaction : BusReaction ι) (callback : ι) (d : Delivery ι δ) :
    (tryCatch (call reaction callback) fun _ => pure () : Delivering ι δ Unit).run.run d =
      (.ok (), ⟨reaction.actions.foldl act d.bus, d.called ++ [callback]⟩) := by
  unfold call
  cases reaction.fails <;> rfl

theorem run_callAll (react : Nat → ι → BusReaction ι) (callbacks : List ι) (d : Delivery ι δ) :
    (callAll react callbacks).run.run d =
      (.ok (), ⟨(reactions react d.called.length callbacks).foldl act d.bus,
        d.called ++ callbacks⟩) := by
  induction callbacks generalizing d with
  | nil =>
    rw [List.append_nil]
    rfl
  | cons callback callbacks ih =>
    let reaction := react d.called.length callback
    calc (callAll react (callback :: callbacks)).run.run d
      _ = ((tryCatch (call reaction callback) fun _ => pure ()) >>= fun _ =>
          callAll react callbacks : Delivering ι δ Unit).run.run d := rfl
      _ = (callAll react callbacks).run.run
          ⟨reaction.actions.foldl act d.bus, d.called ++ [callback]⟩ := by
        rw [ExceptT.run_bind, StateT.run_bind, run_guarded_call]
        rfl
      _ = _ := by
        rw [ih, reactions_cons, List.foldl_append, List.length_append, List.append_assoc]
        rfl

/-- A delivery calls those that are subscribed when it begins, and nothing gets through of their
failures. -/
theorem deliver_eq (react : Nat → ι → BusReaction ι) (b : EventBus ι δ) (e : Event δ) :
    deliver react b e =
      (.ok (), ⟨(reactions react 0 (b.subscribers e.kind)).foldl act
        { b with history := b.history.push e }, b.subscribers e.kind⟩) := by
  calc deliver react b e
    _ = (callAll react (b.subscribers e.kind)).run.run
        ⟨{ b with history := b.history.push e }, []⟩ := rfl
    _ = _ := by
      rw [run_callAll]
      rfl

theorem Follows.deliver (h : b.Follows past) (react : Nat → ι → BusReaction ι) (e : Event δ) :
    (deliver react b e).2.bus.Follows
      (past ++ BusStep.actions past (.publish react e)) := by
  have hPushed : Follows { b with history := b.history.push e } past := h
  rw [deliver_eq, h e.kind]
  exact hPushed.foldl_act _

theorem Follows.step (h : b.Follows past) (s : BusStep ι δ) :
    (b.step s).Follows (past ++ s.actions past) := by
  cases s with
  | act a => exact h.act a
  | publish react e => exact h.deliver react e

theorem happened_concat (steps : List (BusStep ι δ)) (s : BusStep ι δ) :
    happened (steps ++ [s]) = happened steps ++ s.actions (happened steps) := by
  rw [happened, List.foldl_append]
  rfl

theorem run_follows (capacity : Option Nat) (steps : List (BusStep ι δ)) :
    ((empty capacity).run steps).Follows (happened steps) := by
  induction steps using List.reverseRecOn with
  | nil => exact fun _ => rfl
  | append_singleton steps s ih =>
    rw [happened_concat, run_concat]
    exact ih.step s

/-- No failure gets through a delivery. It calls the callbacks that are subscribed to the kind of
the event when it begins, once for each subscription and in the order of these, and what they do
counts from the next delivery on. To end the subscriptions of a callback to a kind ends just these,
and nothing that is done to one kind touches another. -/
theorem delivery_is_exact (capacity : Option Nat) (steps : List (BusStep ι δ))
    (react : Nat → ι → BusReaction ι) (e : Event δ) :
    let b : EventBus ι δ := (empty capacity).run steps
    let past := happened steps
    ∃ after, deliver react b e = (.ok (), after) ∧
      after.called = standing e.kind past ∧
      (∀ kind, after.bus.subscribers kind =
        standing kind (past ++ reactions react 0 after.called)) ∧
      (∀ kind, b.subscribers kind = standing kind (past.filter fun a => a.kind == kind)) ∧
      ∀ kind callback other, (b.unsubscribe kind callback).subscribers other =
        (b.subscribers other).filter fun c => !(other == kind && c == callback) := by
  intro b past
  have hFollows : b.Follows past := run_follows capacity steps
  refine ⟨_, deliver_eq react b e, hFollows e.kind, fun kind => ?_, fun kind => ?_, ?_⟩
  · have hAfter := hFollows.deliver react e kind
    rw [deliver_eq] at hAfter
    rw [hAfter, hFollows e.kind]
    rfl
  · rw [standing_filter_kind]
    exact hFollows kind
  · exact fun kind callback other => subscribers_unsubscribe b kind other callback

/-- Of three callbacks the first fails, the second ends the subscription of the third, and the third
is called all the same. -/
example :
    let b : EventBus Nat Unit := (empty none).run
      [.act (.subscribe .fitView 1), .act (.subscribe .fitView 2), .act (.subscribe .fitView 3)]
    let react : Nat → Nat → BusReaction Nat := fun _ callback =>
      ⟨if callback = 2 then [.unsubscribe .fitView 3] else [], callback = 1⟩
    let after := (deliver react b ⟨.fitView, none, ()⟩).2
    after.called = [1, 2, 3] ∧ after.bus.subscribers .fitView = [1, 2] := by
  decide

end EventBus

end TypeDiagram.Session

import TypeDiagram.Proofs.Session.Immediate

/-! # Measurements and moves of nodes commute

A measurement and a move each change the nodes of one id and compare the sizes of all nodes with
the caches. The caches mirror the view, so what another node gets is not noticed, and neither is the
place of the same node. Two of them, of different ids or of different kinds, can be exchanged: no
layout is asked for that would not be asked for in the other order, and none is missed.
-/

namespace TypeDiagram.Session

open Diagram

variable {α : Type}

inductive Interaction (α : Type) where
  | measure (id : String) (size : Size α)
  | move (id : String) (position : Position α)

namespace Interaction

def id : Interaction α → String
  | measure id _ | move id _ => id

def isMove : Interaction α → Bool
  | measure .. => false
  | move .. => true

/-- The interactions are with different ids, or one is a measurement and the other one a move. -/
def Independent (a b : Interaction α) : Prop := a.id ≠ b.id ∨ a.isMove ≠ b.isMove

def toOperation : Interaction α → Operation α
  | measure id size => .measure id size
  | move id position => .move id position

def adjust (a : Interaction α) (n : Node α) : Node α :=
  if n.id == a.id then
    match a with
    | measure _ size => { n with size := some size }
    | move _ position => { n with position }
  else n

def pins (a : Interaction α) (pinned : List String) : List String :=
  match a with
  | measure .. => pinned
  | move id _ => if pinned.contains id then pinned else pinned ++ [id]

theorem adjust_id (a : Interaction α) (n : Node α) : (a.adjust n).id = n.id := by
  unfold adjust
  split
  · cases a <;> rfl
  · rfl

theorem ids_map_adjust (a : Interaction α) (nodes : List (Node α)) :
    (nodes.map a.adjust).map Node.id = nodes.map Node.id := by
  rw [List.map_map]
  exact List.map_congr_left fun n _ => a.adjust_id n

theorem adjust_of_ne {a : Interaction α} {n : Node α} (h : n.id ≠ a.id) : a.adjust n = n :=
  if_neg (mt beq_iff_eq.mp h)

theorem adjust_adjust {a b : Interaction α} (h : Independent a b) (n : Node α) :
    b.adjust (a.adjust n) = a.adjust (b.adjust n) := by
  by_cases hA : n.id = a.id
  · by_cases hB : n.id = b.id
    · cases a <;> cases b <;> simp_all [Independent, id, isMove, adjust]
    · rw [adjust_of_ne hB, adjust_of_ne (a := b) (by rwa [adjust_id])]
  · rw [adjust_of_ne hA, adjust_of_ne (a := a) (by rwa [adjust_id])]

theorem adjust_size_of_isMove {a : Interaction α} (h : a.isMove = true) (n : Node α) :
    (a.adjust n).size = n.size := by
  cases a with
  | measure => cases h
  | move =>
    unfold adjust
    split <;> rfl

theorem pins_pins (a b : Interaction α) (pinned : List String) :
    (b.pins (a.pins pinned)).Perm (a.pins (b.pins pinned)) := by
  match a, b with
  | measure .., _ | move .., measure .. => exact .refl _
  | move x _, move y _ =>
    by_cases hSame : x = y
    · exact hSame ▸ .refl _
    · by_cases hX : x ∈ pinned <;> by_cases hY : y ∈ pinned <;>
        simp [pins, hX, hY, hSame, Ne.symm hSame]
      exact (List.Perm.swap y x []).append_left pinned

variable [Coordinate α]

def resizes (a : Interaction α) (nodes : List (Node α)) : Bool :=
  nodes.any fun n => !sameSize n.size (a.adjust n).size

/-- An interaction does not keep another one from changing a size, nor makes it change one. -/
theorem resizes_adjust {a b : Interaction α} (h : Independent a b) (nodes : List (Node α)) :
    b.resizes (nodes.map a.adjust) = b.resizes nodes := by
  have hNode : ∀ n, sameSize (a.adjust n).size (b.adjust (a.adjust n)).size =
      sameSize n.size (b.adjust n).size := by
    intro n
    by_cases hB : b.isMove = true
    · rw [adjust_size_of_isMove hB, adjust_size_of_isMove hB, sameSize_refl, sameSize_refl]
    by_cases hA : a.isMove = true
    · rw [adjust_adjust h, adjust_size_of_isMove hA, adjust_size_of_isMove hA]
    have hIds : a.id ≠ b.id := h.resolve_right fun hKinds => by simp_all
    by_cases hId : n.id = a.id
    · have hOther : n.id ≠ b.id := hId ▸ hIds
      rw [adjust_of_ne hOther, adjust_of_ne (a := b) (by rwa [adjust_id]), sameSize_refl,
        sameSize_refl]
    · rw [adjust_of_ne hId]
  unfold resizes
  rw [List.any_map]
  congr 1
  funext n
  exact congrArg (!·) (hNode n)

end Interaction

/-! ## Requests and caches -/

theorem FrameScheduler.request_request {τ κ : Type} [Add τ] [DecidableEq κ]
    (f : FrameScheduler τ κ) (callback : κ) :
    (f.request callback).request callback = f.request callback := by
  unfold request
  by_cases hQueued : callback ∈ f.queue <;> simp [hQueued]

variable [Coordinate α] {built : List Model} {past : String → Prop} {s t : Session α}

omit [Coordinate α] in
/-- What is detached stays so, and nothing joins it, while the ids stay the same. -/
theorem detach_eq_self {detached last current : OrderedMap String (Metrics α)}
    (hKeys : current.keys = last.keys) (hDisjoint : ∀ id ∈ current.keys, id ∉ detached.keys) :
    detach detached last current = detached := by
  have hGone : (last.entries.filter fun e => !current.contains e.1) = [] := by
    refine List.filter_eq_nil_iff.mpr fun e he => ?_
    have hIn : e.1 ∈ current.keys := hKeys ▸ List.mem_map_of_mem he
    simp [(OrderedMap.contains_iff current e.1).mpr hIn]
  simp only [detach, hGone, List.foldl_nil]
  generalize current.keys = ids at hDisjoint
  induction ids with
  | nil => rfl
  | cons id ids ih =>
    rw [List.foldl_cons, OrderedMap.erase_of_not_mem (hDisjoint id List.mem_cons_self)]
    exact ih fun other hIn => hDisjoint other (List.mem_cons_of_mem id hIn)

/-- While the ids stay the same, the caches tell exactly whether a node got another size. -/
theorem Mirrors.needsLayout_map (h : Mirrors built past s) {f : Node α → Node α}
    (hId : ∀ n, (f n).id = n.id) :
    needsLayout { s with nodes := s.nodes.map f } =
      s.nodes.any fun n => !sameSize n.size (f n).size := by
  have hEdges : (s.edges.length != s.edgeCount) = false := by
    rw [h.edgeCount]
    exact bne_self_eq_false _
  have hSize : ((s.nodes.map f).length != s.metrics.size) = false := by
    rw [OrderedMap.size, h.metrics, List.length_map, List.length_map]
    exact bne_self_eq_false _
  unfold needsLayout
  simp only [hEdges, hSize, Bool.false_or, List.any_map]
  rw [Bool.eq_iff_iff, List.any_eq_true, List.any_eq_true]
  refine exists_congr fun n => and_congr_right fun hn => ?_
  rw [Function.comp_apply, hId, h.get?_metrics hn]
  rfl

/-! ## What an interaction does -/

def interact (s : Session α) : Interaction α → Session α × Bool
  | .measure id size => s.measure id size
  | .move id position => s.move id position

/-- The state after an interaction with nodes that are there, if the caches mirrored the view. -/
def adjusted (s : Session α) (a : Interaction α) : Session α :=
  { s with
    nodes := s.nodes.map a.adjust
    pinned := a.pins s.pinned
    metrics := metricsOf (s.nodes.map a.adjust)
    scheduler := if a.resizes s.nodes then s.scheduler.request .startLayout else s.scheduler
    log := s.log ++ [⟨.stateCommitted, none, .committed s.nodes.length s.edges.length⟩] }

/-- The sessions differ at most in the order in which nodes were pinned. -/
def Alike (s t : Session α) : Prop :=
  s.pinned.Perm t.pinned ∧ { s with pinned := t.pinned } = t

theorem alike_adjusted_adjusted {a b : Interaction α} (h : a.Independent b) (s : Session α) :
    Alike ((s.adjusted a).adjusted b) ((s.adjusted b).adjusted a) := by
  refine ⟨a.pins_pins b s.pinned, ?_⟩
  have hNodes : (s.nodes.map a.adjust).map b.adjust = (s.nodes.map b.adjust).map a.adjust := by
    rw [List.map_map, List.map_map]
    exact List.map_congr_left fun n _ => Interaction.adjust_adjust h n
  have hOther : b.Independent a := h.imp Ne.symm Ne.symm
  simp only [adjusted, hNodes, Interaction.resizes_adjust h, Interaction.resizes_adjust hOther,
    List.length_map]
  congr 1
  split <;> split <;> simp [FrameScheduler.request_request]

theorem interact_of_not_mem {a : Interaction α} (h : a.id ∉ s.nodes.map Node.id) :
    s.interact a = (s, false) := by
  cases a with
  | measure id size => exact step_measure_of_not_mem h size
  | move id position => exact step_move_of_not_mem h position

theorem Mirrors.interact_of_mem (h : Mirrors built past s) {a : Interaction α}
    (hIn : a.id ∈ s.nodes.map Node.id) : s.interact a = (s.adjusted a, true) := by
  have hIds := a.ids_map_adjust s.nodes
  have hKeys : (metricsOf (s.nodes.map a.adjust)).keys = s.nodes.map Node.id := by
    rw [keys_metricsOf (hIds ▸ h.nodup_ids), hIds]
  have hDetached : detach s.detached s.metrics (metricsOf (s.nodes.map a.adjust)) = s.detached :=
    detach_eq_self (hKeys.trans h.keys_metrics.symm) fun id hId hGone =>
      h.disjoint id hGone (hKeys ▸ hId)
  have hNeeds : needsLayout { s with
      nodes := s.nodes.map a.adjust, pinned := a.pins s.pinned } = a.resizes s.nodes :=
    h.needsLayout_map a.adjust_id
  have hCommit : ({ s with pinned := a.pins s.pinned } : Session α).commit
      (s.nodes.map a.adjust) s.edges = s.adjusted a := by
    rw [commit_eq]
    simp only [adjusted, hNeeds, hDetached, List.length_map]
    rw [h.edgeCount]
  have hAny := (any_id_iff s a.id).mpr hIn
  have hDone := congrArg (·, true) hCommit
  cases a with
  | measure id size => exact (if_pos hAny).trans hDone
  | move id position =>
    exact (if_pos ((node?_isSome_iff s id).mpr hIn)).trans ((if_pos hAny).trans hDone)

/-! ## Interactions in another order -/

omit [Coordinate α] in
theorem Alike.refl (s : Session α) : Alike s s := ⟨.refl _, rfl⟩

omit [Coordinate α] in
theorem Alike.eq (h : Alike s t) (hPinned : s.pinned = t.pinned) : s = t := by
  obtain ⟨_, hRest⟩ := h
  rwa [← hPinned] at hRest

theorem interact_fst (s : Session α) (a : Interaction α) :
    (s.interact a).1 = s.step a.toOperation := by
  cases a <;> rfl

theorem Orderly.interact (h : Orderly s) (a : Interaction α) : Orderly (s.interact a).1 :=
  interact_fst s a ▸ h.step a.toOperation

theorem interact_snd_iff (s : Session α) (a : Interaction α) :
    (s.interact a).2 = true ↔ a.id ∈ s.nodes.map Node.id := by
  cases a with
  | measure id size => exact measure_snd_iff s id size
  | move id position => exact move_snd_iff s id position

theorem Orderly.interact_eq (h : Orderly s) (a : Interaction α) :
    s.interact a = if a.id ∈ s.nodes.map Node.id then (s.adjusted a, true) else (s, false) := by
  obtain ⟨_, _, hMirrors⟩ := h.mirrors
  split
  · exact hMirrors.interact_of_mem ‹_›
  · exact interact_of_not_mem ‹_›

theorem Orderly.ids_interact (h : Orderly s) (a : Interaction α) :
    (s.interact a).1.nodes.map Node.id = s.nodes.map Node.id := by
  rw [h.interact_eq]
  split
  · exact a.ids_map_adjust s.nodes
  · rfl

theorem Orderly.interact_snd (h : Orderly s) (a b : Interaction α) :
    ((s.interact a).1.interact b).2 = (s.interact b).2 := by
  rw [Bool.eq_iff_iff, interact_snd_iff, interact_snd_iff, h.ids_interact]

theorem Orderly.alike_interact (h : Orderly s) {a b : Interaction α} (hAB : a.Independent b) :
    Alike ((s.interact a).1.interact b).1 ((s.interact b).1.interact a).1 := by
  rw [(h.interact a).interact_eq, (h.interact b).interact_eq, h.ids_interact, h.ids_interact,
    h.interact_eq, h.interact_eq]
  by_cases hA : a.id ∈ s.nodes.map Node.id
  · by_cases hB : b.id ∈ s.nodes.map Node.id
    · rw [if_pos hA, if_pos hB, if_pos hA, if_pos hB]
      exact alike_adjusted_adjusted hAB s
    · rw [if_pos hA, if_neg hB, if_pos hA, if_neg hB]
      exact .refl _
  · rw [if_neg hA, if_neg hA]
    exact .refl _

theorem Orderly.pinned_measure (h : Orderly s) (id : String) (size : Size α) :
    (s.interact (.measure id size)).1.pinned = s.pinned := by
  rw [h.interact_eq]
  split <;> rfl

theorem Orderly.measure_measure (h : Orderly s) {e f : String × Size α} (hIds : e.1 ≠ f.1) :
    (s.step (.measure e.1 e.2)).step (.measure f.1 f.2) =
      (s.step (.measure f.1 f.2)).step (.measure e.1 e.2) := by
  let a : Interaction α := .measure e.1 e.2
  let b : Interaction α := .measure f.1 f.2
  have hAlike : Alike ((s.interact a).1.interact b).1 ((s.interact b).1.interact a).1 :=
    h.alike_interact (.inl hIds)
  refine hAlike.eq ?_
  rw [(h.interact a).pinned_measure, h.pinned_measure, (h.interact b).pinned_measure,
    h.pinned_measure]

def measurements (sizes : List (String × Size α)) : List (Operation α) :=
  sizes.map fun e => .measure e.1 e.2

theorem Orderly.run_measurements (h : Orderly s) {sizes sizes' : List (String × Size α)}
    (hPerm : sizes.Perm sizes') (hIds : (sizes.map Prod.fst).Nodup) :
    s.run (measurements sizes) = s.run (measurements sizes') := by
  induction hPerm generalizing s with
  | nil => rfl
  | cons e _ ih => exact ih (h.step _) (List.nodup_cons.mp hIds).2
  | swap e f rest =>
    have hDifferent : f.1 ≠ e.1 := by
      simp at hIds
      tauto
    exact congrArg (fun t : Session α => t.run (measurements rest)) (h.measure_measure hDifferent)
  | trans hFirst _ ih ih' => exact (ih h hIds).trans (ih' h ((hFirst.map _).nodup_iff.mp hIds))

/-- In every state of a diagram, measurements and moves with different ids, or a measurement and a
move with the same id, have the same outcomes and lead to the same state in either order. Nodes that
are measured once each may be measured in any order. -/
theorem independent_interactions_commute (options : ViewOptions) (layoutOptions : LayoutOptions)
    (ops : List (Operation α)) :
    let s := (create options layoutOptions).run ops
    (∀ a b : Interaction α, a.Independent b →
      ((s.interact a).1.interact b).2 = (s.interact b).2 ∧
      ((s.interact b).1.interact a).2 = (s.interact a).2 ∧
      Alike ((s.interact a).1.interact b).1 ((s.interact b).1.interact a).1) ∧
    ∀ sizes sizes' : List (String × Size α), (sizes.map Prod.fst).Nodup → sizes.Perm sizes' →
      s.run (measurements sizes) = s.run (measurements sizes') := by
  intro s
  have h : Orderly s := (orderly_create options layoutOptions).run ops
  exact ⟨fun a b hAB => ⟨h.interact_snd a b, h.interact_snd b a, h.alike_interact hAB⟩,
    fun _ _ hIds hPerm => h.run_measurements hPerm hIds⟩

/-- Only the measurement calls for a layout, before the move as well as after it. -/
theorem measurement_commutes_with_move_of_same_node :
    let declared : Operation Rat := .setDeclarations ⟨[⟨"A", [], 1⟩, ⟨"B", [], 2⟩], by decide⟩
    let s := (create ⟨.horizontal, true, .light, true⟩ .standard).run [declared, .frame]
    let a : Interaction Rat := .measure "A" ⟨200, 80⟩
    let b : Interaction Rat := .move "A" ⟨5, -3⟩
    let sizes := [("B", ⟨10, 20⟩), ("C", ⟨1, 1⟩), ("A", ⟨200, 80⟩)]
    s.state = .layoutInFlight ∧ (s.interact b).1.state = .layoutInFlight ∧
      ((s.interact a).1.interact b).1.state = .layoutPending ∧
      (a.Independent b ∧ Alike ((s.interact a).1.interact b).1 ((s.interact b).1.interact a).1) ∧
      ((sizes.map Prod.fst).Nodup ∧ sizes.Perm sizes.reverse ∧
        s.run (measurements sizes) = s.run (measurements sizes.reverse)) := by
  intro declared s a b sizes
  obtain ⟨hPairs, hMeasured⟩ :=
    independent_interactions_commute ⟨.horizontal, true, .light, true⟩ .standard [declared, .frame]
  have hKinds : a.Independent b := .inr Bool.false_ne_true
  have hIds : (sizes.map Prod.fst).Nodup := by decide
  have hPerm : sizes.Perm sizes.reverse := sizes.reverse_perm.symm
  exact ⟨by decide +kernel, by decide +kernel, by decide +kernel,
    ⟨hKinds, (hPairs a b hKinds).2.2⟩, hIds, hPerm, hMeasured sizes sizes.reverse hIds hPerm⟩

end TypeDiagram.Session

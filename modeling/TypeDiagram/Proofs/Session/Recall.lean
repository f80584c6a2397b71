import TypeDiagram.Proofs.Session.Mirror

/-! # What is remembered of a node

The metrics of a node outlive its declaration: they are kept while it is gone and given back to it
when it returns. A step begins them with a node that was never there, changes them by a measurement,
a move or the pass that it applies, or leaves them as they are.
-/

namespace TypeDiagram.Session

open Diagram

variable {α : Type}

theorem remembered?_of_store_eq {s t : Session α} (h : t.store = s.store) (id : String) :
    t.remembered? id = s.remembered? id := by
  rw [remembered?, show t.metrics = s.metrics from congrArg Store.metrics h,
    show t.detached = s.detached from congrArg Store.detached h]
  rfl

variable [Coordinate α]

/-- What a step does to the metrics of the node with the given id. -/
inductive Recalls (s : Session α) (op : Operation α) (id : String) :
    Option (Metrics α) → Option (Metrics α) → Prop where
  | keeps (m : Option (Metrics α)) (hMeasures : ¬ Measures id s op)
      (hApplies : ∀ p placed, Applies s op p placed → id ∉ s.nodes.map Node.id) :
      Recalls s op id m m
  | begins (hOp : op.models?.isSome = true) : Recalls s op id none (some ⟨.offScreen, none⟩)
  | measures (m : Metrics α) (size : Size α) (hOp : op = .measure id size)
      (hDone : (s.measure id size).2 = true) :
      Recalls s op id (some m) (some { m with size := some size })
  | moves (m : Metrics α) (position : Position α) (hOp : op = .move id position)
      (hDone : (s.move id position).2 = true) : Recalls s op id (some m) (some { m with position })
  | merges (n : Node α) (p : Pass α) (placed : List (Node α)) (h : Applies s op p placed)
      (hIn : n ∈ s.nodes) (hId : n.id = id) :
      Recalls s op id (some (Metrics.of n)) (some (Metrics.of (s.merged p placed n)))

variable {built built' : List Model} {past past' : String → Prop} {s : Session α} {op : Operation α}

theorem Applies.models?_eq_none {p : Pass α} {placed : List (Node α)} (h : Applies s op p placed) :
    op.models? = none := by
  obtain ⟨service, rfl, _⟩ := h.settles
  rfl

theorem Measures.models?_eq_none {id : String} (h : Measures id s op) : op.models? = none := by
  obtain ⟨size, rfl, _⟩ := h
  rfl

theorem not_applies_of_models? (h : op.models?.isSome = true) (p : Pass α)
    (placed : List (Node α)) : ¬ Applies s op p placed := fun hApplies => by
  rw [hApplies.models?_eq_none] at h
  cases h

theorem not_measures_of_models? (h : op.models?.isSome = true) (id : String) :
    ¬ Measures id s op := fun hMeasures => by
  rw [hMeasures.models?_eq_none] at h
  cases h

/-- A node that is restored has the metrics that are remembered, or those of a new node. -/
theorem metrics_restored (s : Session α) (m : Model) :
    Metrics.of (s.restored ⟨m.id, m, .offScreen, none⟩) =
      (s.remembered? m.id).getD ⟨.offScreen, none⟩ := by
  unfold restored
  cases hRemembered : s.remembered? m.id with
  | none => rfl
  | some metrics =>
    obtain ⟨position, size⟩ := metrics
    cases size <;> rfl

theorem remembered?_commit_of_not_mem (h : Mirrors built past s) {nodes : List (Node α)}
    (hNodup : (nodes.map Node.id).Nodup) (edges : List Edge) {id : String}
    (hOut : id ∉ nodes.map Node.id) :
    (s.commit nodes edges).remembered? id = s.remembered? id := by
  have hNone : (metricsOf nodes).get? id = none := by
    rwa [OrderedMap.get?_eq_none_iff, keys_metricsOf hNodup]
  rw [remembered?_commit h.nodup_keys, hNone]
  rfl

theorem remembered?_step_of_not_mem (h : Mirrors built past s) {id : String}
    (hOut : id ∉ (s.step op).nodes.map Node.id) :
    (s.step op).remembered? id = s.remembered? id := by
  cases hOp : op.models? with
  | some models =>
    rw [step_of_models?_eq_some hOp] at hOut ⊢
    rw [setModels_nodes] at hOut
    rw [setModels_eq]
    apply remembered?_commit_of_not_mem h _ (edgesOf models) hOut
    rw [ids_restored]
    exact nodup_of_models?_eq_some hOp
  | none =>
    rcases step_keeps_or_adjusts hOp s with hStore | ⟨f, pins, hAdjusts⟩
    · exact remembered?_of_store_eq hStore id
    · rw [hAdjusts.nodes] at hOut
      have hNodup := hAdjusts.ids ▸ h.nodup_ids
      rw [← remembered?_commit_of_not_mem h hNodup s.edges hOut, remembered?, remembered?,
        show (s.step op).metrics = _ from congrArg Store.metrics hAdjusts.store,
        show (s.step op).detached = _ from congrArg Store.detached hAdjusts.store]
      rfl

theorem Adjusts.remembered {f : Node α → Node α} {pins : List String} (h : Adjusts s op f pins)
    (hNext : Mirrors built' past' (s.step op)) {n : Node α} (hn : n ∈ s.nodes) :
    (s.step op).remembered? n.id = some (Metrics.of (f n)) := by
  have hIn : f n ∈ (s.step op).nodes := by
    rw [h.nodes]
    exact List.mem_map_of_mem hn
  rw [← hNext.remembered hIn, h.id]

theorem recalls_of_models? {models : List Model} (hOp : op.models? = some models)
    (hNext : Mirrors built' past' (s.step op)) {id : String}
    (hIn : id ∈ (s.step op).nodes.map Node.id) :
    Recalls s op id (s.remembered? id) ((s.step op).remembered? id) := by
  have hSome : op.models?.isSome = true := Option.isSome_of_eq_some hOp
  obtain ⟨n, hn, rfl⟩ := List.mem_map.mp hIn
  rw [hNext.remembered hn]
  rw [step_of_models?_eq_some hOp, setModels_nodes] at hn
  obtain ⟨blank, hBlank, rfl⟩ := List.mem_map.mp hn
  obtain ⟨m, _, rfl⟩ := List.mem_map.mp hBlank
  rw [metrics_restored, restored_id]
  cases hRemembered : s.remembered? m.id with
  | none => exact .begins hSome
  | some metrics =>
    exact .keeps _ (not_measures_of_models? hSome _) fun p placed hApplies =>
      absurd hApplies (not_applies_of_models? hSome p placed)

theorem not_measures_of_not_mem {id : String} (hOut : id ∉ s.nodes.map Node.id) :
    ¬ Measures id s op := by
  rintro ⟨size, _, hDone⟩
  exact hOut ((measure_snd_iff s id size).mp hDone)

theorem ids_step (hOp : op.models? = none) :
    (s.step op).nodes.map Node.id = s.nodes.map Node.id := by
  rcases step_keeps_or_adjusts hOp s with hStore | ⟨f, pins, hAdjusts⟩
  · rw [show (s.step op).nodes = s.nodes from congrArg Store.nodes hStore]
  · rw [hAdjusts.nodes, hAdjusts.ids]

/-- A step that is none of those that change the metrics of a node leaves them as they are. -/
theorem remembered?_step_of_untouched (h : Mirrors built past s)
    (hNext : Mirrors built' past' (s.step op)) (hOp : op.models? = none) {n : Node α}
    (hn : n ∈ s.nodes) (hMeasures : ¬ Measures n.id s op) (hMoves : ¬ Moves n.id s op)
    (hApplies : ∀ p placed, ¬ Applies s op p placed) :
    (s.step op).remembered? n.id = s.remembered? n.id := by
  cases op with
  | setSource source => cases hOp
  | setDeclarations ds => cases hOp
  | measure id size =>
    by_cases hIn : id ∈ s.nodes.map Node.id
    · have hOther : n.id ≠ id := fun hSame =>
        hMeasures ⟨size, by rw [hSame], (measure_snd_iff s n.id size).mpr (hSame ▸ hIn)⟩
      rw [(measure_adjusts hIn size).remembered hNext hn, if_neg (by simpa using hOther),
        h.remembered hn]
    · rw [step, step_measure_of_not_mem hIn]
  | move id position =>
    by_cases hIn : id ∈ s.nodes.map Node.id
    · have hOther : n.id ≠ id := fun hSame =>
        hMoves ⟨position, by rw [hSame], (move_snd_iff s n.id position).mpr (hSame ▸ hIn)⟩
      rw [(move_adjusts hIn position).remembered hNext hn, if_neg (by simpa using hOther),
        h.remembered hn]
    · rw [step, step_move_of_not_mem hIn]
  | settle token service =>
    rcases settle_cases s token service with hIdle | ⟨p, placed, hThis⟩
    · exact remembered?_of_store_eq hIdle.store n.id
    · exact absurd hThis (hApplies p placed)
  | frame => exact remembered?_of_store_eq (frame_store s) n.id
  | noticeViewport | toggleAutoFit | toggleDirection | requestLayout | layoutNow | begin token
  | cancel token | close => rfl

theorem recalls_step (h : Mirrors built past s) (hNext : Mirrors built' past' (s.step op))
    (id : String) : Recalls s op id (s.remembered? id) ((s.step op).remembered? id) := by
  cases hOp : op.models? with
  | some models =>
    have hSome : op.models?.isSome = true := Option.isSome_of_eq_some hOp
    by_cases hIn : id ∈ (s.step op).nodes.map Node.id
    · exact recalls_of_models? hOp hNext hIn
    · rw [remembered?_step_of_not_mem h hIn]
      exact .keeps _ (not_measures_of_models? hSome id) fun p placed hApplies =>
        absurd hApplies (not_applies_of_models? hSome p placed)
  | none =>
    by_cases hIn : id ∈ s.nodes.map Node.id
    · obtain ⟨n, hn, rfl⟩ := List.mem_map.mp hIn
      by_cases hApplies : ∃ p placed, Applies s op p placed
      · obtain ⟨p, placed, hApplies⟩ := hApplies
        rw [h.remembered hn, hApplies.adjusts.remembered hNext hn]
        exact .merges n p placed hApplies hn rfl
      · have hNone : ∀ p placed, ¬ Applies s op p placed := fun p placed hThis =>
          hApplies ⟨p, placed, hThis⟩
        by_cases hMeasures : Measures n.id s op
        · obtain ⟨size, rfl, hDone⟩ := hMeasures
          rw [h.remembered hn, (measure_adjusts hIn size).remembered hNext hn,
            if_pos (beq_self_eq_true n.id)]
          exact .measures (Metrics.of n) size rfl hDone
        · by_cases hMoves : Moves n.id s op
          · obtain ⟨position, rfl, hDone⟩ := hMoves
            rw [h.remembered hn, (move_adjusts hIn position).remembered hNext hn,
              if_pos (beq_self_eq_true n.id)]
            exact .moves (Metrics.of n) position rfl hDone
          · rw [remembered?_step_of_untouched h hNext hOp hn hMeasures hMoves hNone]
            exact .keeps _ hMeasures fun p placed hThis => absurd hThis (hNone p placed)
    · rw [remembered?_step_of_not_mem h (by rwa [ids_step hOp])]
      exact .keeps _ (not_measures_of_not_mem hIn) fun _ _ _ => hIn

theorem recalls_run (options : ViewOptions) (layoutOptions : LayoutOptions)
    (ops : List (Operation α)) (op : Operation α) (id : String) :
    Recalls ((create options layoutOptions).run ops) op id
      (((create options layoutOptions).run ops).remembered? id)
      ((((create options layoutOptions).run ops).step op).remembered? id) := by
  have hNext := mirrors_run options layoutOptions (ops ++ [op])
  rw [run_concat] at hNext
  exact recalls_step (mirrors_run options layoutOptions ops) hNext id

/-! ## Pins -/

theorem Adjusts.pinned_eq {f : Node α → Node α} {pins : List String} (h : Adjusts s op f pins) :
    (s.step op).pinned = pins := congrArg Store.pinned h.store

theorem mem_pinned_step {id : String} (h : id ∈ (s.step op).pinned) :
    id ∈ s.pinned ∨ Moves id s op := by
  cases op with
  | setSource source | setDeclarations ds =>
    rw [step_of_models?_eq_some rfl, setModels_eq, commit_eq] at h
    exact .inl h
  | measure other size =>
    by_cases hIn : other ∈ s.nodes.map Node.id
    · exact .inl ((measure_adjusts hIn size).pinned_eq ▸ h)
    · rw [step, step_measure_of_not_mem hIn] at h
      exact .inl h
  | move other position =>
    by_cases hIn : other ∈ s.nodes.map Node.id
    · rw [(move_adjusts hIn position).pinned_eq] at h
      split at h
      · exact .inl h
      · rcases List.mem_append.mp h with hOld | hNew
        · exact .inl hOld
        · rw [List.mem_singleton.mp hNew]
          exact .inr ⟨position, rfl, (move_snd_iff s other position).mpr hIn⟩
    · rw [step, step_move_of_not_mem hIn] at h
      exact .inl h
  | settle token service =>
    rcases settle_cases s token service with hIdle | ⟨p, placed, hApplies⟩
    · rw [show (s.step (.settle token service)).pinned = s.pinned from
        congrArg Store.pinned hIdle.store] at h
      exact .inl h
    · exact .inl (hApplies.adjusts.pinned_eq ▸ h)
  | frame =>
    rw [step, show s.frame.pinned = s.pinned from congrArg Store.pinned (frame_store s)] at h
    exact .inl h
  | noticeViewport | toggleAutoFit | toggleDirection | requestLayout | layoutNow | begin token
  | cancel token | close => exact .inl h

theorem pinned_step_of_mem {id : String} (h : id ∈ s.pinned) : id ∈ (s.step op).pinned := by
  cases hOp : op.models? with
  | some models =>
    rw [step_of_models?_eq_some hOp, setModels_eq, commit_eq]
    exact h
  | none =>
    rcases step_keeps_or_adjusts hOp s with hStore | ⟨f, pins, hAdjusts⟩
    · rw [show (s.step op).pinned = s.pinned from congrArg Store.pinned hStore]
      exact h
    · exact hAdjusts.pinned_eq ▸ hAdjusts.pinned id h

theorem mem_pinned_of_moves {id : String} (h : Moves id s op) : id ∈ (s.step op).pinned := by
  obtain ⟨position, rfl, hDone⟩ := h
  rw [(move_adjusts ((move_snd_iff s id position).mp hDone) position).pinned_eq]
  split
  · exact List.contains_iff_mem.mp ‹_›
  · exact List.mem_append_right _ (List.mem_singleton_self id)

theorem not_moves_of_not_mem_pinned (start : Session α) {ops : List (Operation α)} {id : String}
    (h : id ∉ (start.run ops).pinned) : Throughout (fun s op => ¬ Moves id s op) start ops := by
  induction ops using List.reverseRecOn with
  | nil => trivial
  | append_singleton ops op ih =>
    rw [run_concat] at h
    have hEarlier : id ∉ (start.run ops).pinned := fun hPinned => h (pinned_step_of_mem hPinned)
    exact (throughout_concat _ ops op).mpr
      ⟨ih hEarlier, fun hMoves => h (mem_pinned_of_moves hMoves)⟩

end TypeDiagram.Session

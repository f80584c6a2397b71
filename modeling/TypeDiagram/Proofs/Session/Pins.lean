import TypeDiagram.Proofs.Session.Mirror

/-! # A node that was moved by hand stays where it was put

The position of such a node is held in three places: the pins keep layouts from moving the node, the
view shows it, and the metrics bring it back with the node if its declaration goes and returns.
-/

namespace TypeDiagram.Session

open Diagram

variable {α : Type}

/-- The node with the given id is pinned at a position, whether it is committed or detached. -/
structure HeldAt (id : String) (position : Position α) (s : Session α) : Prop where
  pinned : id ∈ s.pinned
  committed : ∀ n ∈ s.nodes, n.id = id → n.position = position
  remembered : (s.remembered? id).map Metrics.position = some position

variable {built : List Model} {past : String → Prop} {s t : Session α} {id : String}
  {position : Position α}

theorem HeldAt.of_store_eq (h : HeldAt id position s) (hStore : t.store = s.store) :
    HeldAt id position t := by
  have hNodes : t.nodes = s.nodes := congrArg Store.nodes hStore
  have hPinned : t.pinned = s.pinned := congrArg Store.pinned hStore
  have hMetrics : t.metrics = s.metrics := congrArg Store.metrics hStore
  have hDetached : t.detached = s.detached := congrArg Store.detached hStore
  refine ⟨hPinned ▸ h.pinned, hNodes ▸ h.committed, ?_⟩
  rw [remembered?, hMetrics, hDetached]
  exact h.remembered

theorem HeldAt.restored_position (h : HeldAt id position s) (n : Node α) (hId : n.id = id) :
    (s.restored n).position = position := by
  obtain ⟨m, hm, hPosition⟩ := Option.map_eq_some_iff.mp h.remembered
  rw [restored, hId, hm]
  exact hPosition

variable [Coordinate α]

/-- A commit that shows the node at the position, if it shows it, and remembers it there, if it does
not. -/
theorem heldAt_of_commit (h : Mirrors built past s) {nodes : List (Node α)} {edges : List Edge}
    (hNodup : (nodes.map Node.id).Nodup) {models : List Model} {pins : List String}
    {topology : OrderedMap String Model.TopologyHash} (hPin : id ∈ pins)
    (hNodes : ∀ n ∈ nodes, n.id = id → n.position = position)
    (hKnown : id ∉ nodes.map Node.id → (s.remembered? id).map Metrics.position = some position)
    (hStore : t.store = { (s.commit nodes edges).store with
      models := models, pinned := pins, topology := topology }) : HeldAt id position t := by
  have hTNodes : t.nodes = nodes := by
    rw [show t.nodes = _ from congrArg Store.nodes hStore, commit_eq]
    rfl
  have hTPinned : t.pinned = pins := congrArg Store.pinned hStore
  have hRemembered : t.remembered? id = (s.commit nodes edges).remembered? id := by
    rw [remembered?, show t.metrics = _ from congrArg Store.metrics hStore,
      show t.detached = _ from congrArg Store.detached hStore]
    rfl
  refine ⟨hTPinned ▸ hPin, hTNodes ▸ hNodes, ?_⟩
  rw [hRemembered, remembered?_commit h.nodup_keys]
  by_cases hIn : id ∈ nodes.map Node.id
  · obtain ⟨n, hn, rfl⟩ := List.mem_map.mp hIn
    rw [get?_metricsOf hNodup hn]
    exact congrArg some (hNodes n hn rfl)
  · have hNone : (metricsOf nodes).get? id = none := by
      rwa [OrderedMap.get?_eq_none_iff, keys_metricsOf hNodup]
    rw [hNone]
    exact hKnown hIn

theorem HeldAt.step (h : HeldAt id position s) (hMirrors : Mirrors built past s)
    {op : Operation α} (hMoves : ¬ Moves id s op) : HeldAt id position (s.step op) := by
  cases hOp : op.models? with
  | some models =>
    have hNodup : (((nodesOf models).map s.restored).map Node.id).Nodup := by
      rw [ids_restored]
      exact nodup_of_models?_eq_some hOp
    have hStore : (s.step op).store =
        { (s.commit ((nodesOf models).map s.restored) (edgesOf models)).store with
          models := models
          pinned := s.pinned
          topology := topologyOf models } := by
      rw [step_of_models?_eq_some hOp, setModels_store, commit_eq]
      rfl
    apply heldAt_of_commit hMirrors hNodup h.pinned _ (fun _ => h.remembered) hStore
    intro n hn hId
    obtain ⟨blank, _, rfl⟩ := List.mem_map.mp hn
    rw [restored_id] at hId
    exact h.restored_position blank hId
  | none =>
    rcases step_keeps_or_adjusts hOp s with hStore | ⟨f, pins, hAdjusts⟩
    · exact h.of_store_eq hStore
    · apply heldAt_of_commit hMirrors (hAdjusts.ids ▸ hMirrors.nodup_ids)
        (hAdjusts.pinned id h.pinned) _ (fun _ => h.remembered) hAdjusts.store
      intro n hn hId
      obtain ⟨old, hOld, rfl⟩ := List.mem_map.mp hn
      rw [hAdjusts.id] at hId
      subst hId
      rw [hAdjusts.held old h.pinned hMoves, h.committed old hOld rfl]

theorem heldAt_of_move (hMirrors : Mirrors built past s)
    (h : (s.move id position).2 = true) : HeldAt id position (s.step (.move id position)) := by
  have hIn := (move_snd_iff s id position).mp h
  have hAdjusts := move_adjusts hIn position
  apply heldAt_of_commit hMirrors (hAdjusts.ids ▸ hMirrors.nodup_ids) _ _ _ hAdjusts.store
  · split
    · exact List.contains_iff_mem.mp ‹_›
    · exact List.mem_append_right _ (List.mem_singleton.mpr rfl)
  · intro n hn hId
    obtain ⟨old, _, rfl⟩ := List.mem_map.mp hn
    have hOld : old.id = id := (hAdjusts.id old).symm.trans hId
    simp [hOld]
  · exact fun hOut => absurd (hAdjusts.ids ▸ hIn) hOut

/-- Once a node was moved by hand, it stands there whenever it is committed, up to the next time it
is moved by hand. -/
theorem moved_node_stays (options : ViewOptions) (layoutOptions : LayoutOptions)
    (before after : List (Operation α)) (id : String) (position : Position α)
    (hMoved : (((create options layoutOptions).run before).move id position).2 = true)
    (hAfter : Throughout (fun s op => ¬ Moves id s op)
      ((create options layoutOptions).run (before ++ [.move id position])) after) :
    ∀ n ∈ ((create options layoutOptions).run (before ++ [.move id position] ++ after)).nodes,
      n.id = id → n.position = position := by
  suffices h : HeldAt id position
      ((create options layoutOptions).run (before ++ [.move id position] ++ after)) from h.committed
  -- The view alone does not carry the induction: while the node is gone, only the metrics know
  -- where it stood.
  induction after using List.reverseRecOn with
  | nil =>
    rw [List.append_nil, run_concat]
    exact heldAt_of_move (mirrors_run options layoutOptions before) hMoved
  | append_singleton after op ih =>
    obtain ⟨hEarlier, hLast⟩ := (throughout_concat _ after op).mp hAfter
    rw [← run_append] at hLast
    rw [← List.append_assoc, run_concat]
    exact (ih hEarlier).step (mirrors_run options layoutOptions _) hLast

/-- The declaration goes and returns while a pass is in flight that started before the move and puts
the node elsewhere. -/
theorem moved_node_stays_while_edited :
    let declared : Operation Rat := .setDeclarations ⟨[⟨"A", [], 1⟩], by decide⟩
    let answer : Service Rat := fun _ => .ok [⟨some (.text "A"), some 7, some 7, none, none⟩]
    let before := [declared, .layoutNow]
    let after := [.setDeclarations ⟨[], List.nodup_nil⟩, declared, .settle 1 answer]
    let s := (create ⟨.horizontal, true, .light, true⟩ .standard).run
      (before ++ [.move "A" ⟨3, 4⟩] ++ after)
    ∃ n ∈ s.nodes, n.id = "A" ∧ n.position = ⟨3, 4⟩ := by
  intro declared answer before after s
  have hIds : s.nodes.map Node.id = ["A"] := (mirrors_run _ _ _).ids.trans rfl
  obtain ⟨n, hn, hId⟩ := List.mem_map.mp (hIds ▸ List.mem_singleton_self "A")
  refine ⟨n, hn, hId, moved_node_stays _ _ before after "A" ⟨3, 4⟩ rfl ?_ n hn hId⟩
  refine ⟨?_, ?_, ?_, trivial⟩ <;>
  · rintro ⟨_, hOp, _⟩
    simp only [declared, reduceCtorEq] at hOp

end TypeDiagram.Session

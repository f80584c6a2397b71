import Mathlib.Data.List.Induction
import TypeDiagram.Proofs.Session.Step

/-! # The view is that of the last source, and the caches mirror it

Whatever happens in between, the committed nodes and edges are those of the models that were built
last. No layout result reverts, drops or revives any of them, and the caches hold exactly what is
committed now and what was committed before.
-/

namespace TypeDiagram.Session

open Diagram

variable {α : Type}

theorem entries_topologyOf {models : List Model} (h : (models.map Model.id).Nodup) :
    (topologyOf models).entries = models.map fun m => (m.id, m.topologyHash) := by
  apply OrderedMap.entries_ofList
  rw [List.map_map]
  exact h

/-- The view is that of the given models, the caches mirror it, and what they hold besides are the
ids that were committed before. -/
structure Mirrors (built : List Model) (past : String → Prop) (s : Session α) : Prop where
  distinct : (built.map Model.id).Nodup
  models : s.models = built
  ids : s.nodes.map Node.id = built.map Model.id
  nodeModels : s.nodes.map Node.model = built
  edges : s.edges = edgesOf built
  metrics : s.metrics.entries = s.nodes.map fun n => (n.id, ⟨n.position, n.size⟩)
  edgeCount : s.edgeCount = s.edges.length
  topology : s.topology.entries = s.models.map fun m => (m.id, m.topologyHash)
  disjoint : ∀ id ∈ s.detached.keys, id ∉ s.nodes.map Node.id
  ever : ∀ id, past id ↔ id ∈ s.nodes.map Node.id ∨ id ∈ s.detached.keys
  pinned : ∀ id ∈ s.pinned, past id

variable {built : List Model} {past : String → Prop} {s : Session α}

theorem Mirrors.nodup_ids (h : Mirrors built past s) : (s.nodes.map Node.id).Nodup := by
  rw [h.ids]
  exact h.distinct

theorem Mirrors.keys_metrics (h : Mirrors built past s) :
    s.metrics.keys = s.nodes.map Node.id := by
  rw [OrderedMap.keys, h.metrics, List.map_map]
  rfl

theorem Mirrors.nodup_keys (h : Mirrors built past s) : s.metrics.keys.Nodup := by
  rw [h.keys_metrics]
  exact h.nodup_ids

theorem Mirrors.get?_metrics (h : Mirrors built past s) {n : Node α} (hn : n ∈ s.nodes) :
    s.metrics.get? n.id = some (Metrics.of n) := by
  apply OrderedMap.get?_eq_some_of_mem h.nodup_keys
  rw [h.metrics]
  exact List.mem_map.mpr ⟨n, hn, rfl⟩

theorem Mirrors.remembered (h : Mirrors built past s) {n : Node α} (hn : n ∈ s.nodes) :
    s.remembered? n.id = some (Metrics.of n) := by
  rw [remembered?, h.get?_metrics hn]
  rfl

theorem Mirrors.of_store_eq (h : Mirrors built past s) {t : Session α}
    (hStore : t.store = s.store) {past' : String → Prop}
    (hEver : ∀ id, past' id ↔ past id ∨ id ∈ t.nodes.map Node.id) : Mirrors built past' t := by
  have hModels : t.models = s.models := congrArg Store.models hStore
  have hNodes : t.nodes = s.nodes := congrArg Store.nodes hStore
  have hEdges : t.edges = s.edges := congrArg Store.edges hStore
  have hPinned : t.pinned = s.pinned := congrArg Store.pinned hStore
  have hMetrics : t.metrics = s.metrics := congrArg Store.metrics hStore
  have hDetached : t.detached = s.detached := congrArg Store.detached hStore
  have hEdgeCount : t.edgeCount = s.edgeCount := congrArg Store.edgeCount hStore
  have hTopology : t.topology = s.topology := congrArg Store.topology hStore
  have hSame : ∀ id, past' id ↔ past id := by
    intro id
    rw [hEver id, hNodes, or_iff_left_iff_imp]
    exact fun hIn => (h.ever id).mpr (.inl hIn)
  exact {
    distinct := h.distinct
    models := hModels.trans h.models
    ids := by rw [hNodes, h.ids]
    nodeModels := by rw [hNodes, h.nodeModels]
    edges := hEdges.trans h.edges
    metrics := by rw [hMetrics, hNodes, h.metrics]
    edgeCount := by rw [hEdgeCount, hEdges, h.edgeCount]
    topology := by rw [hTopology, hModels, h.topology]
    disjoint := by rw [hDetached, hNodes]; exact h.disjoint
    ever := fun id => by rw [hSame, hNodes, hDetached, h.ever]
    pinned := fun id hPin => (hSame id).mpr (h.pinned id (hPinned ▸ hPin)) }

variable [Coordinate α]

theorem Mirrors.of_commit (h : Mirrors built past s) {t : Session α} {built' : List Model}
    {nodes : List (Node α)} {pins : List String} {topology : OrderedMap String Model.TopologyHash}
    (hDistinct : (built'.map Model.id).Nodup) (hIds : nodes.map Node.id = built'.map Model.id)
    (hModels : nodes.map Node.model = built')
    (hTopology : topology.entries = built'.map fun m => (m.id, m.topologyHash))
    (hStore : t.store = ⟨built', nodes, edgesOf built', pins, metricsOf nodes,
      detach s.detached s.metrics (metricsOf nodes), (edgesOf built').length, topology⟩)
    (hPins : ∀ id ∈ pins, id ∈ s.pinned ∨ id ∈ s.nodes.map Node.id) {past' : String → Prop}
    (hEver : ∀ id, past' id ↔ past id ∨ id ∈ t.nodes.map Node.id) : Mirrors built' past' t := by
  have hTModels : t.models = built' := congrArg Store.models hStore
  have hTNodes : t.nodes = nodes := congrArg Store.nodes hStore
  have hTEdges : t.edges = edgesOf built' := congrArg Store.edges hStore
  have hTPinned : t.pinned = pins := congrArg Store.pinned hStore
  have hTMetrics : t.metrics = metricsOf nodes := congrArg Store.metrics hStore
  have hTTopology : t.topology = topology := congrArg Store.topology hStore
  have hNodup : (nodes.map Node.id).Nodup := hIds ▸ hDistinct
  have hDetached : ∀ id, id ∈ t.detached.keys ↔ id ∉ nodes.map Node.id ∧
      (id ∈ s.nodes.map Node.id ∨ id ∈ s.detached.keys) := by
    intro id
    rw [show t.detached = _ from congrArg Store.detached hStore, ← keys_metricsOf hNodup,
      ← h.keys_metrics, ← mem_keys_detached_commit h.nodup_keys nodes s.edges id, commit_eq]
  exact {
    distinct := hDistinct
    models := hTModels
    ids := by rw [hTNodes, hIds]
    nodeModels := by rw [hTNodes, hModels]
    edges := hTEdges
    metrics := by rw [hTMetrics, hTNodes, entries_metricsOf hNodup]; rfl
    edgeCount := by
      rw [hTEdges]
      exact congrArg Store.edgeCount hStore
    topology := by rw [hTTopology, hTModels, hTopology]
    disjoint := fun id hIn => by
      rw [hTNodes]
      exact ((hDetached id).mp hIn).1
    ever := fun id => by
      rw [hEver, h.ever, hDetached, hTNodes]
      by_cases hIn : id ∈ nodes.map Node.id <;> simp only [hIn] <;> tauto
    pinned := fun id hPin => by
      rw [hEver]
      rcases hPins id (hTPinned ▸ hPin) with hOld | hNew
      · exact .inl (h.pinned id hOld)
      · exact .inl ((h.ever id).mpr (.inl hNew)) }

theorem ids_restored (s : Session α) (models : List Model) :
    ((nodesOf models).map s.restored).map Node.id = models.map Model.id := by
  simp only [nodesOf, List.map_map]
  exact List.map_congr_left fun m _ => restored_id s _

theorem models_restored (s : Session α) (models : List Model) :
    ((nodesOf models).map s.restored).map Node.model = models := by
  simp only [nodesOf, List.map_map]
  exact (List.map_congr_left fun m _ => restored_model s _).trans (List.map_id models)

theorem Mirrors.step (h : Mirrors built past s) (op : Operation α) {past' : String → Prop}
    (hEver : ∀ id, past' id ↔ past id ∨ id ∈ (s.step op).nodes.map Node.id) :
    Mirrors ((op.models?).getD built) past' (s.step op) := by
  cases hOp : op.models? with
  | some built' =>
    have hDistinct := nodup_of_models?_eq_some hOp
    apply h.of_commit hDistinct (ids_restored s built') (models_restored s built')
      (entries_topologyOf hDistinct) _ (fun id hPin => .inl hPin) hEver
    rw [step_of_models?_eq_some hOp, setModels_store, commit_eq]
    rfl
  | none =>
    rcases step_keeps_or_adjusts hOp s with hStore | ⟨f, pins, hAdjusts⟩
    · exact h.of_store_eq hStore hEver
    · apply h.of_commit h.distinct (hAdjusts.ids.trans h.ids) (hAdjusts.models.trans h.nodeModels)
        _ _ hAdjusts.committed hEver
      · exact s.topology
      · rw [h.topology, h.models]
      · rw [hAdjusts.store, commit_eq, ← h.edges, ← h.models]
        rfl

/-! ## Runs -/

/-- The id was that of a committed node at some point of the run. -/
def EverCommitted (s : Session α) (ops : List (Operation α)) (id : String) : Prop :=
  ∃ before, before <+: ops ∧ id ∈ (s.run before).nodes.map Node.id

theorem everCommitted_concat (s : Session α) (ops : List (Operation α)) (op : Operation α)
    (id : String) :
    EverCommitted s (ops ++ [op]) id ↔
      EverCommitted s ops id ∨ id ∈ ((s.run ops).step op).nodes.map Node.id := by
  constructor
  · rintro ⟨before, hPrefix, hIn⟩
    rcases List.prefix_concat_iff.mp hPrefix with rfl | hPrefix
    · exact .inr (run_concat s ops op ▸ hIn)
    · exact .inl ⟨before, hPrefix, hIn⟩
  · rintro (⟨before, hPrefix, hIn⟩ | hIn)
    · exact ⟨before, hPrefix.trans (List.prefix_append ops [op]), hIn⟩
    · exact ⟨ops ++ [op], List.prefix_rfl, run_concat s ops op ▸ hIn⟩

theorem mirrors_run (options : ViewOptions) (layoutOptions : LayoutOptions)
    (ops : List (Operation α)) :
    Mirrors (lastModels ops) (EverCommitted (create options layoutOptions) ops)
      ((create options layoutOptions).run ops) := by
  induction ops using List.reverseRecOn with
  | nil =>
    refine ⟨List.nodup_nil, rfl, rfl, rfl, rfl, rfl, rfl, rfl, ?_, ?_, ?_⟩
    · intro id hIn
      cases hIn
    · intro id
      simp [EverCommitted, run, create, OrderedMap.empty, OrderedMap.keys]
    · intro id hIn
      cases hIn
  | append_singleton ops op ih =>
    rw [lastModels_concat, run_concat]
    exact ih.step op (everCommitted_concat _ ops op)

/-- After every step the view is that of the models built last, and the caches hold what is
committed and what was committed before. -/
theorem view_of_last_source (options : ViewOptions) (layoutOptions : LayoutOptions)
    (ops : List (Operation α)) :
    let start := create options layoutOptions
    let s := start.run ops
    let models := lastModels ops
    s.nodes.map Node.id = models.map Model.id ∧ (models.map Model.id).Nodup ∧
      s.models = models ∧ s.nodes.map Node.model = models ∧ s.edges = edgesOf models ∧
      s.metrics.entries = s.nodes.map (fun n => (n.id, ⟨n.position, n.size⟩)) ∧
      s.edgeCount = s.edges.length ∧
      s.topology.entries = models.map (fun m => (m.id, m.topologyHash)) ∧
      (∀ id ∈ s.detached.keys, id ∉ s.nodes.map Node.id) ∧
      (∀ id, EverCommitted start ops id ↔ id ∈ s.nodes.map Node.id ∨ id ∈ s.detached.keys) ∧
      ∀ id ∈ s.pinned, EverCommitted start ops id := by
  have h := mirrors_run options layoutOptions ops
  exact ⟨h.ids, h.distinct, h.models, h.nodeModels, h.edges, h.metrics, h.edgeCount,
    by rw [h.topology, h.models], h.disjoint, h.ever, h.pinned⟩

end TypeDiagram.Session
